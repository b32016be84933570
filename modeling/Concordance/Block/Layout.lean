import Concordance.Block.Basic
import Concordance.Varint

/-!
# The layout of a block

Reading the head of a block cuts the bytes behind it into four adjacent
streams that end where the block ends.  The head is checked: its figures must
be those of some list of postings, and every skip entry must lie behind the
one before it and inside its streams.
-/

namespace Concordance

namespace Block

/-- The content of a block, cut into its streams. -/
structure Layout where
  summary : Summary
  skipInterval : Nat
  skips : List SkipEntry
  /-- Where the stream of documents starts in the block. -/
  docsStart : Nat
  docs : List UInt8
  counts : List UInt8
  extents : List UInt8

namespace Layout

/-- Where the stream of counts starts in the block. -/
def countsStart (layout : Layout) : Nat := layout.docsStart + layout.docs.length

/-- Where the stream of extents starts in the block. -/
def extentsStart (layout : Layout) : Nat := layout.countsStart + layout.counts.length

/-- Where the block ends. -/
def stop (layout : Layout) : Nat := layout.extentsStart + layout.extents.length

/-- The nine numbers at the head of a block. -/
structure Head where
  summary : Summary
  skipInterval : Nat
  skipCount : Nat
  skipsLength : Nat
  docsLength : Nat
  countsLength : Nat
  extentsLength : Nat

/-- Refuse figures that no list of postings has. -/
def checkFigures (summary : Summary) (skipInterval skipCount : Nat) : Except Error Unit := do
  if !summary.isConsistent || skipInterval == 0 then throw .inconsistentSummary
  let expected := skipsFor summary.docs skipInterval
  if skipCount ≠ expected then throw (.skipCountMismatch expected skipCount)

/-- Read the head of a block. -/
def readHead : Step (List UInt8) Head := do
  let docs ← Varint.read64
  let total ← Varint.read64
  let largest ← Varint.read64
  let skipInterval ← Varint.read64
  let skipCount ← Varint.read64
  Step.ofExcept (checkFigures ⟨docs, total, largest⟩ skipInterval skipCount)
  let skipsLength ← Varint.read64
  let docsLength ← Varint.read64
  let countsLength ← Varint.read64
  let extentsLength ← Varint.read64
  pure
    { summary := ⟨docs, total, largest⟩
      skipInterval := skipInterval
      skipCount := skipCount
      skipsLength := skipsLength
      docsLength := docsLength
      countsLength := countsLength
      extentsLength := extentsLength }

/-- Lengths and offsets are held in 64 bits. -/
def addressLimit : Nat := 18446744073709551616

/-- The end of a stream of some length, if an address can name it. -/
def streamStop (start length : Nat) : Except Error Nat :=
  if start + length < addressLimit then .ok (start + length) else .error .streamOverflow

/-- A table of skip entries, 32 bytes each, must fit half of the addresses, so
that it has fewer than `2 ^ 58` entries. -/
def maxSkips : Nat := 288230376151711744

/-- An offset further into a stream, if an address can name it. -/
def advanceOffset (offset gap : Nat) : Except Error Nat :=
  if offset + gap < addressLimit then .ok (offset + gap) else .error .skipFigureOverflow

/-- Read the skip entry behind another one. -/
def readSkip (before : SkipEntry) : Step (List UInt8) SkipEntry := do
  let gap ← Varint.read64
  let lastDoc ←
    match DocId.ofNat? (before.lastDoc.val + gap) with
    | some doc => pure doc
    | none => throw .skipDocOverflow
  let docsGap ← Varint.read64
  let docsOffset ← Step.ofExcept (advanceOffset before.docsOffset docsGap)
  let countsGap ← Varint.read64
  let countsOffset ← Step.ofExcept (advanceOffset before.countsOffset countsGap)
  let extentsGap ← Varint.read64
  let extentsOffset ← Step.ofExcept (advanceOffset before.extentsOffset extentsGap)
  pure ⟨lastDoc, docsOffset, countsOffset, extentsOffset⟩

/-- Whether a skip entry points into streams of the lengths that a head gives. -/
def Head.holds (head : Head) (entry : SkipEntry) : Bool :=
  entry.docsOffset ≤ head.docsLength && entry.countsOffset ≤ head.countsLength &&
    entry.extentsOffset ≤ head.extentsLength

/-- Read skip entries behind those found already.  The first one may have any
document before it, each later one must have a greater document than the entry
in front of it. -/
def readSkips (head : Head) :
    Nat → Array SkipEntry → SkipEntry → Step (List UInt8) (Array SkipEntry)
  | 0, found, _ => pure found
  | count + 1, found, before => do
    let entry ← readSkip before
    if !head.holds entry || (!found.isEmpty && entry.lastDoc ≤ before.lastDoc) then
      throw .skipOutside
    readSkips head count (found.push entry) entry

/-- Cut the bytes of a block into its streams. -/
def parse (bytes : List UInt8) : Except Error Layout :=
  match readHead bytes with
  | .error cause _ => .error cause
  | .ok head body => do
    let start := bytes.length - body.length
    let docsStart ← streamStop start head.skipsLength
    let countsStart ← streamStop docsStart head.docsLength
    let extentsStart ← streamStop countsStart head.countsLength
    let stop ← streamStop extentsStart head.extentsLength
    if stop ≠ bytes.length then throw (.blockLengthMismatch bytes.length stop)
    if maxSkips ≤ head.skipCount then throw .skipTableOverflow
    let skipBytes := body.take head.skipsLength
    let streams := body.drop head.skipsLength
    let skips ← (readSkips head head.skipCount #[] SkipEntry.origin).evaluate skipBytes
    pure
      { summary := head.summary
        skipInterval := head.skipInterval
        skips := skips.toList
        docsStart := docsStart
        docs := streams.take head.docsLength
        counts := (streams.drop head.docsLength).take head.countsLength
        extents := (streams.drop head.docsLength).drop head.countsLength }

end Layout

end Block

end Concordance
