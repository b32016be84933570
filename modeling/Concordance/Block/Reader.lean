import Concordance.Block.Group
import Concordance.GapList

/-!
# Reading a block

A reader stands on one posting of a block and only moves forward.  It either
decodes the extents of each posting or never looks at them.  The extents of
the current posting are decoded in place: when that fails half way, the
document and the count are still those of the posting before.
-/

namespace Concordance

namespace Block

/-- A place in a block together with the posting decoded last. -/
structure Reader where
  layout : Layout
  /-- The groups of the layout. -/
  groups : List Group
  withExtents : Bool
  /-- What is left of the stream of documents. -/
  docBytes : List UInt8
  /-- What is left of the stream of counts. -/
  countBytes : List UInt8
  /-- What is left of the stream of extents. -/
  extentBytes : List UInt8
  /-- The document from which the next gap counts. -/
  base : Option DocId
  /-- Postings decoded so far, the current one included. -/
  decoded : Nat
  current : Option DocId
  count : Nat
  extents : List Extent

namespace Reader

def isDone (reader : Reader) : Bool := reader.current.isNone

def summary (reader : Reader) : Summary := reader.layout.summary

/-- Leave the current posting for good, without decoding another one. -/
def exhaust (reader : Reader) : Reader :=
  { reader with current := none, count := 0, extents := [] }

/-- A reader in front of the first posting. -/
def atStart (layout : Layout) (withExtents : Bool) : Reader :=
  { layout := layout
    groups := layout.groups
    withExtents := withExtents
    docBytes := layout.docs
    countBytes := layout.counts
    extentBytes := layout.extents
    base := none
    decoded := 0
    current := none
    count := 0
    extents := [] }

/-- Whether bytes are left in a stream that has been read to its end. -/
def hasTrailingBytes (reader : Reader) : Bool :=
  !reader.docBytes.isEmpty || !reader.countBytes.isEmpty ||
    (reader.withExtents && !reader.extentBytes.isEmpty)

def onDocs {α : Type} (read : Step (List UInt8) α) : Step Reader α :=
  read.onPart docBytes fun reader bytes => { reader with docBytes := bytes }

def onCounts {α : Type} (read : Step (List UInt8) α) : Step Reader α :=
  read.onPart countBytes fun reader bytes => { reader with countBytes := bytes }

/-- Extents being decoded: the bytes ahead and the extents found. -/
structure Gathering where
  bytes : List UInt8
  found : Array Extent

def Gathering.onBytes {α : Type} (read : Step (List UInt8) α) : Step Gathering α :=
  read.onPart bytes fun gathering rest => { gathering with bytes := rest }

/-- The extent that starts a gap behind a position and has some width. -/
def extentAt (before gap width : Nat) : Except Error Extent :=
  if startBound : before + gap < 4294967296 then
    if stopBound : before + gap + width < 4294967296 then
      .ok ⟨before + gap, before + gap + width, startBound, stopBound⟩
    else .error .stopOverflow
  else .error .startOverflow

/-- Decode the extents of a posting; `before` is the start of the one before. -/
def gather (doc : DocId) (declared : Nat) : Nat → Nat → Step Gathering Unit
  | 0, _ => pure ()
  | missing + 1, before => do
    if (← get).bytes.isEmpty then throw (.extentsMissing doc declared)
    let gap ← Gathering.onBytes Varint.read32
    let width ← Gathering.onBytes Varint.read32
    let extent ← Step.ofExcept (extentAt before gap width)
    modify fun gathering => { gathering with found := gathering.found.push extent }
    gather doc declared missing extent.start

/-- Decode the extents of a posting in place of those of the current one. -/
def readExtents (doc : DocId) (count : Nat) : Step Reader Unit :=
  (gather doc count count 0).onPart
    (fun reader => ⟨reader.extentBytes, #[]⟩)
    (fun reader gathering =>
      { reader with extentBytes := gathering.bytes, extents := gathering.found.toList })

/-- Decode the next posting, or become done behind the last one. -/
def advance : Step Reader Unit := do
  let reader ← get
  if reader.decoded = reader.layout.summary.docs then
    if reader.hasTrailingBytes then throw .trailingPostings
    set reader.exhaust
  else
    let doc ← onDocs (GapList.readNext reader.base)
    modify fun reader => { reader with base := some doc }
    let count ← onCounts Varint.read32
    if count = 0 then throw (.zeroCount doc)
    if reader.withExtents then readExtents doc count
    modify fun reader =>
      { reader with decoded := reader.decoded + 1, current := some doc, count := count }

/-- The furthest group that may hold a target and has not been entered, with the
number of postings in front of it. -/
def groupFor (reader : Reader) (target : DocId) : Option (Group × Nat) :=
  let interval := reader.layout.skipInterval
  let entered := (reader.decoded - 1) / interval
  match reader.groups.drop entered with
  | [] => none
  | group :: later =>
    if group.lastDoc < target then
      some (Group.furthest interval target group ((entered + 1) * interval) later)
    else none

/-- Continue at the start of a group. -/
def enterGroup (reader : Reader) (group : Group) (before : Nat) : Reader :=
  { reader with
    docBytes := group.docs
    countBytes := group.counts
    extentBytes := group.extents
    base := some group.lastDoc
    decoded := before }

/-- Advance while the current document is below a target, in at most `limit`
advances. -/
def advanceTo (target : DocId) : Nat → Step Reader Unit
  | 0 => pure ()
  | limit + 1 => do
    match (← get).current with
    | none => pure ()
    | some doc =>
      if doc < target then
        advance
        advanceTo target limit

/-- Advance to the first posting at or behind a target.  Groups that end before
the target are passed over where the skip entries allow it. -/
def skipTo (target : DocId) : Step Reader Unit := do
  let reader ← get
  match reader.current with
  | none => pure ()
  | some doc =>
    if doc < target then
      if let some (group, before) := reader.groupFor target then
        set (reader.enterGroup group before)
        advance
      advanceTo target (reader.layout.summary.docs + 1)

/-- A reader on the first posting of a block. -/
def open? (bytes : List UInt8) (withExtents : Bool) : Except Error Reader := do
  let layout ← Layout.parse bytes
  match advance (atStart layout withExtents) with
  | .ok _ reader => pure reader
  | .error cause _ => throw cause

/-- The posting on which a reader stands. -/
def posting? (reader : Reader) : Option Posting :=
  reader.current.map fun doc => ⟨doc, reader.count, reader.extents⟩

end Reader

end Block

end Concordance
