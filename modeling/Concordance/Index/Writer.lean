import Concordance.Block.Builder
import Concordance.Index.Dictionary
import Concordance.Index.Header

/-!
# Writing an index

A writer takes keys in ascending order, under each key documents in ascending
order, and for each document its extents in order.  A call out of order is
refused and changes nothing.  A document without extents leaves no trace but
the order that later documents have to keep.

The blocks of closed keys are gathered in a buffer, which goes to the file when
it has grown large.  Their checksum and their length are kept up as they come,
so that the file is never read again.
-/

namespace Concordance

namespace Index

/-- An index being written. -/
structure Writer where
  /-- Documents between two skip entries of a block. -/
  interval : Nat
  /-- The blocks that stand in the file, behind the place of the header. -/
  stored : Array UInt8
  /-- The blocks of closed keys that are not in the file yet. -/
  buffer : Array UInt8
  /-- The register of the checksum of all blocks of closed keys. -/
  register : BitVec 32
  /-- Bytes of all blocks of closed keys. -/
  postingsLength : Nat
  keys : Array (Key × Nat)
  lastKey : Option Key
  /-- The block of the open key, without the open document. -/
  block : Option Block.Builder
  /-- The open document with its extents so far, the last one first. -/
  document : Option (DocId × List Extent)
  /-- The last document begun under the open key. -/
  lastDoc : Option DocId
  collection : Collection

/-- What a finished writer leaves: the header, the blocks and the dictionary. -/
structure Written where
  header : Header
  postings : List UInt8
  keys : List UInt8

/-- The whole file. -/
def Written.bytes (written : Written) : List UInt8 :=
  written.header.encode ++ written.postings ++ written.keys

namespace Writer

def new (interval : Nat) : Writer :=
  { interval := interval
    stored := #[]
    buffer := #[]
    register := Checksum.start
    postingsLength := 0
    keys := #[]
    lastKey := none
    block := none
    document := none
    lastDoc := none
    collection := Collection.empty }

/-- The interval of skip entries that is used where none is asked for. -/
def defaultInterval : Nat := 128

/-- Close the open document and put it into the block of its key. -/
def closeDocument (writer : Writer) : Except Error Writer :=
  match writer.document, writer.block with
  | some (doc, extents), some block =>
    if extents.isEmpty then .ok { writer with document := none }
    else do
      let block ← block.add doc extents.reverse
      pure { writer with document := none, block := some block }
  | _, _ => .ok { writer with document := none }

/-- A buffer with more bytes than this goes to the file. -/
def bufferLimit : Nat := 1048576

/-- Put the buffer into the file. -/
def flush (writer : Writer) : Writer :=
  { writer with stored := writer.stored ++ writer.buffer, buffer := #[] }

/-- Put a finished block behind the others. -/
def append (writer : Writer) (block : List UInt8) : Writer :=
  let buffered :=
    { writer with
      buffer := writer.buffer ++ block
      register := Checksum.absorbAll writer.register block
      postingsLength := writer.postingsLength + block.length }
  if bufferLimit < buffered.buffer.size then buffered.flush else buffered

/-- Close the open key and put its block behind the others. -/
def closeKey (writer : Writer) : Except Error Writer := do
  let writer ← writer.closeDocument
  match writer.block with
  | none => pure writer
  | some block => pure ({ writer with block := none }.append block.finish)

/-- Open a key above all keys so far. -/
def beginKey (writer : Writer) (key : Key) : Except Error Writer := do
  if let some last := writer.lastKey then
    if key ≤ last then throw (.keyNotAfter key last)
  let writer ← writer.closeKey
  pure
    { writer with
      keys := writer.keys.push (key, writer.postingsLength)
      lastKey := some key
      block := some (Block.Builder.new writer.interval)
      lastDoc := none }

/-- Open a document above all documents of the open key. -/
def beginDocument (writer : Writer) (doc : DocId) : Except Error Writer := do
  if writer.block.isNone then throw .documentBeforeKey
  if let some last := writer.lastDoc then
    if doc ≤ last then throw (.docNotAfter doc last)
  let writer ← writer.closeDocument
  pure { writer with document := some (doc, []), lastDoc := some doc }

/-- Add an extent that is the right way round and does not start before the
last one of the open document. -/
def addExtent (writer : Writer) (extent : Extent) : Except Error Writer :=
  match writer.document with
  | none => .error .occurrenceBeforeDocument
  | some (doc, extents) =>
    let behindLast : Bool :=
      match extents.head? with
      | some last => last.start ≤ extent.start
      | none => true
    if extent.start ≤ extent.stop && behindLast then
      .ok { writer with document := some (doc, extent :: extents) }
    else .error (.extentOutOfOrder extent.start extent.stop doc)

/-- Write a document with its extents under the open key. -/
def writeDocument (writer : Writer) (doc : DocId) (extents : List Extent) :
    Except Error Writer := do
  let writer ← writer.beginDocument doc
  extents.foldlM addExtent writer

/-- Write a key with its documents. -/
def writeKey (writer : Writer) (key : Key) (documents : List (DocId × List Extent)) :
    Except Error Writer := do
  let writer ← writer.beginKey key
  documents.foldlM (fun writer entry => writer.writeDocument entry.1 entry.2) writer

/-- Set the size of the collection that the header shows. -/
def setCollection (writer : Writer) (collection : Collection) : Writer :=
  { writer with collection := collection }

/-- Close the last key and put the file together. -/
def finish (writer : Writer) (format : KeyFormat := KeyFormat.plain) : Except Error Written := do
  let writer ← writer.closeKey
  let writer := writer.flush
  let keys := format.encode ⟨writer.keys.toList⟩
  pure
    { header :=
        { Header.blank with
          keyCount := writer.keys.size.toUInt64
          postingsLength := writer.postingsLength.toUInt64
          keysOffset := (Header.size + writer.postingsLength).toUInt64
          keysLength := keys.length.toUInt64
          checksum := UInt32.ofBitVec (Checksum.result writer.register)
          collectionLength := writer.collection.length.toUInt64
          documentCount := writer.collection.documents.toUInt64 }
      postings := writer.stored.toList
      keys := keys }

end Writer

end Index

end Concordance
