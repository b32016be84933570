import Concordance.Varint

/-!
# Lists of gaps

A strictly increasing list of document identifiers is written as its first
member and then the gap from each member to the next.  A reader can start in
the middle if it knows the member before.
-/

namespace Concordance

/-- A list of gaps being written: its last member and the bytes so far. -/
structure GapWriter where
  last : Option DocId
  bytes : Array UInt8

namespace GapWriter

def empty : GapWriter := ⟨none, #[]⟩

/-- Add a member above the last one. -/
def push (writer : GapWriter) (doc : DocId) : Except Error GapWriter :=
  match writer.last with
  | none => .ok ⟨some doc, writer.bytes ++ Varint.encode doc.val⟩
  | some last =>
    if last < doc then
      .ok ⟨some doc, writer.bytes ++ Varint.encode (doc.val - last.val)⟩
    else .error (.notIncreasing doc last)

end GapWriter

namespace GapList

/-- The bytes of a strictly increasing list. -/
def encode (docs : List DocId) : Except Error (List UInt8) := do
  let writer ← docs.foldlM GapWriter.push GapWriter.empty
  pure writer.bytes.toList

/-- The member that lies a gap behind the one before it, or the first one. -/
def member : Option DocId → Nat → Except Error DocId
  | none, gap =>
    match DocId.ofNat? gap with
    | some doc => .ok doc
    | none => .error .docOverflow
  | some last, gap =>
    if gap = 0 then .error .zeroGap
    else
      match DocId.ofNat? (last.val + gap) with
      | some doc => .ok doc
      | none => .error .docOverflow

/-- Read the member after `last` from a stream.  A gap that leads to no member
has been read when this fails. -/
def readNext (last : Option DocId) : Step (List UInt8) DocId := do
  let gap ← Varint.read64
  Step.ofExcept (member last gap)

/-- Read members until the stream ends, in at most `limit` readings. -/
def readAll : Nat → Option DocId → Step (List UInt8) (List DocId)
  | 0, _ => pure []
  | limit + 1, last => do
    if (← get).isEmpty then pure []
    else
      let doc ← readNext last
      let later ← readAll limit (some doc)
      pure (doc :: later)

/-- The strictly increasing list with these bytes. -/
def decode (bytes : List UInt8) : Except Error (List DocId) :=
  (readAll bytes.length none).evaluate bytes

end GapList

end Concordance
