import Concordance.Block.Basic
import Concordance.GapList

/-!
# Building blocks

A builder takes the postings of one key in ascending order of documents.  A
posting that it refuses changes nothing: every check stands before the first
byte.
-/

namespace Concordance

namespace Block

/-- A block being built. -/
structure Builder where
  /-- Documents between two skip entries, at least one. -/
  interval : Nat
  summary : Summary
  docs : GapWriter
  counts : Array UInt8
  extents : Array UInt8
  skips : Array UInt8
  skipCount : Nat
  lastSkip : SkipEntry

namespace Builder

/-- A builder without postings.  An interval of zero counts as one. -/
def new (interval : Nat) : Builder :=
  { interval := max interval 1
    summary := Summary.empty
    docs := GapWriter.empty
    counts := #[]
    extents := #[]
    skips := #[]
    skipCount := 0
    lastSkip := SkipEntry.origin }

def isEmpty (builder : Builder) : Bool := builder.summary.docs == 0

def lastDoc (builder : Builder) : Option DocId := builder.docs.last

/-- Add the bytes of extents, each as the gap from the start before it and its
width. -/
def pushExtents : Nat → List Extent → Array UInt8 → Array UInt8
  | _, [], bytes => bytes
  | before, extent :: extents, bytes =>
    pushExtents extent.start extents
      (bytes ++ Varint.encode (extent.start - before) ++ Varint.encode extent.width)

/-- Note the place behind the last document as a skip entry. -/
def pushSkip (builder : Builder) (lastDoc : DocId) : Builder :=
  let entry : SkipEntry :=
    { lastDoc := lastDoc
      docsOffset := builder.docs.bytes.size
      countsOffset := builder.counts.size
      extentsOffset := builder.extents.size }
  let before := builder.lastSkip
  { builder with
    skips := builder.skips
      ++ Varint.encode (entry.lastDoc.val - before.lastDoc.val)
      ++ Varint.encode (entry.docsOffset - before.docsOffset)
      ++ Varint.encode (entry.countsOffset - before.countsOffset)
      ++ Varint.encode (entry.extentsOffset - before.extentsOffset)
    skipCount := builder.skipCount + 1
    lastSkip := entry }

/-- Whether the next document opens a group that needs a skip entry. -/
def opensGroup (builder : Builder) : Bool :=
  builder.summary.docs % builder.interval == 0

/-- Close the group behind the last document if it is full. -/
def openGroup (builder : Builder) : Builder :=
  match builder.lastDoc with
  | some last => if builder.opensGroup then builder.pushSkip last else builder
  | none => builder

/-- Refuse a document that does not come next: documents ascend, and each has at
least one extent and its extents in order. -/
def check (builder : Builder) (doc : DocId) (extents : List Extent) : Except Error Unit := do
  if extents.isEmpty then throw (.noOccurrences doc)
  if let some last := builder.lastDoc then
    if doc ≤ last then throw (.docNotAfter doc last)
  if !Extent.inOrder 0 extents then throw (.extentsNotOrdered doc)

/-- Add a document with its extents. -/
def add (builder : Builder) (doc : DocId) (extents : List Extent) :
    Except Error Builder := do
  builder.check doc extents
  let grouped := builder.openGroup
  let docs ← grouped.docs.push doc
  pure
    { grouped with
      docs := docs
      counts := grouped.counts ++ Varint.encode (storedCount extents)
      extents := pushExtents 0 extents grouped.extents
      summary := grouped.summary.add extents.length }

/-- The numbers at the head of the block. -/
def head (builder : Builder) : List Nat :=
  [builder.summary.docs, builder.summary.total, builder.summary.largest,
    builder.interval, builder.skipCount, builder.skips.size,
    builder.docs.bytes.size, builder.counts.size, builder.extents.size]

/-- The finished block. -/
def finish (builder : Builder) : List UInt8 :=
  builder.head.flatMap Varint.encode
    ++ (builder.skips ++ builder.docs.bytes ++ builder.counts ++ builder.extents).toList

end Builder

/-- Add postings whose counts must be those of their extents. -/
def addPosting (builder : Builder) (posting : Posting) : Except Error Builder :=
  if posting.count = posting.extents.length then
    builder.add posting.doc posting.extents
  else
    .error (.countMismatch posting.doc posting.count posting.extents.length)

/-- The block of a whole list of postings. -/
def encode (postings : List Posting) (interval : Nat) : Except Error (List UInt8) := do
  let builder ← postings.foldlM addPosting (Builder.new interval)
  pure builder.finish

end Block

end Concordance
