import Concordance.Block.Reader
import Concordance.Statistics.Basic

/-!
# Leaf cursors

A leaf stands in the block of one key.  It remembers the highest target it was
moved to: a lower target later on is an error of the caller, even where the
leaf already stands behind both.
-/

namespace Concordance

/-- A cursor over the postings of one key. -/
structure Leaf where
  key : String
  reader : Block.Reader
  /-- The highest target so far. -/
  floor : DocId

namespace Leaf

/-- A leaf on the first posting of a block. -/
def open? (key : Key) (block : List UInt8) (withExtents : Bool) : Except Error Leaf := do
  let reader ← Block.Reader.open? block withExtents
  pure ⟨key.text, reader, DocId.zero⟩

def capabilities (leaf : Leaf) : Capabilities :=
  if leaf.reader.withExtents then Capabilities.allButEstimator
  else Capabilities.countAndAggregate

/-- Move to the first posting at or behind a target. -/
def moveTo (target : DocId) : Step Leaf Unit := do
  let leaf ← get
  if !leaf.reader.isDone then
    if target < leaf.floor then throw (.movedBack leaf.key target leaf.floor)
    set { leaf with floor := target }
    (Block.Reader.skipTo target).onPart Leaf.reader fun leaf reader =>
      { leaf with reader := reader }

def exhaust (leaf : Leaf) : Leaf := { leaf with reader := leaf.reader.exhaust }

def count (leaf : Leaf) : Except Error Nat :=
  if leaf.reader.isDone then .error (.exhausted leaf.key) else .ok leaf.reader.count

def extents (leaf : Leaf) : Except Error (List Extent) :=
  if !leaf.reader.withExtents then .error (.noExtents leaf.key)
  else if leaf.reader.isDone then .error (.exhausted leaf.key)
  else .ok leaf.reader.extents

/-- The figures of the whole block, wherever the leaf stands. -/
def statistics (leaf : Leaf) (collection : Collection) : Statistics :=
  let summary := leaf.reader.summary
  ⟨leaf.key, summary.total, summary.docs, summary.largest, collection⟩

end Leaf

end Concordance
