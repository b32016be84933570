import Concordance.Block.Reader

/-!
# Walking over a block

A walk hands out the postings of a block one by one.  The first failure is
handed out too and ends the walk.
-/

namespace Concordance

namespace Block

/-- How far a walk has come. -/
inductive Walk.Phase where
  /-- Nothing has been handed out. -/
  | fresh
  /-- The current posting has been handed out. -/
  | underWay
  /-- A failure has been handed out. -/
  | failed
  deriving DecidableEq

structure Walk where
  reader : Reader
  phase : Walk.Phase

namespace Walk

/-- A walk that has not begun, over the postings of a block. -/
def open? (bytes : List UInt8) : Except Error Walk := do
  let reader ← Reader.open? bytes true
  pure ⟨reader, .fresh⟩

/-- The next posting or failure, if there is one, and the walk behind it. -/
def next (walk : Walk) : Option (Except Error Posting) × Walk :=
  match walk.phase with
  | .failed => (none, walk)
  | .fresh => (walk.reader.posting?.map .ok, ⟨walk.reader, .underWay⟩)
  | .underWay =>
    match Reader.advance walk.reader with
    | .error cause reader => (some (.error cause), ⟨reader, .failed⟩)
    | .ok _ reader => (reader.posting?.map .ok, ⟨reader, .underWay⟩)

/-- Everything that a walk hands out in at most `limit` moves, behind what it
handed out before, and the walk that is left. -/
def take : Nat → Array (Except Error Posting) → Walk → List (Except Error Posting) × Walk
  | 0, found, walk => (found.toList, walk)
  | limit + 1, found, walk =>
    match walk.next with
    | (none, after) => (found.toList, after)
    | (some item, after) => take limit (found.push item) after

/-- Everything that a walk still hands out: no more than the postings that the
summary announces and one failure. -/
def toList (walk : Walk) : List (Except Error Posting) × Walk :=
  walk.take (walk.reader.summary.docs + 2) #[]

end Walk

/-- All postings of a block, with the failure that ends them early. -/
def decode (bytes : List UInt8) : Except Error (List (Except Error Posting)) := do
  let walk ← Walk.open? bytes
  pure walk.toList.1

end Block

end Concordance
