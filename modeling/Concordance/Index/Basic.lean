import Concordance.Checksum
import Concordance.Index.Dictionary
import Concordance.Index.Header
import Concordance.StoredFile

/-!
# Reading an index

An index is a file cut into its header, its postings and its key dictionary.
The block of a key starts at the key's offset and ends at the offset of the
next key, or with the postings for the last key.
-/

namespace Concordance

/-- An index file that has been opened. -/
structure Index where
  name : String
  header : Index.Header
  postings : List UInt8
  keys : Index.Dictionary

namespace Index

/-- Open an index file.  The checksum of the postings is verified on request. -/
def open? (file : StoredFile) (verify : Bool) (format : KeyFormat := KeyFormat.plain) :
    Except Error Index := do
  let bytes ←
    match file.content with
    | some bytes => pure bytes
    | none => throw .fileMissing
  let header ← Header.decode bytes
  let (postingsStart, postingsStop) ← header.postingsRange
  let (keysStart, keysStop) ← header.keysRange
  if keysStop ≠ bytes.length then
    throw (.fileLengthMismatch file.name bytes.length keysStop)
  let postings := (bytes.drop postingsStart).take (postingsStop - postingsStart)
  if verify && UInt32.ofBitVec (Checksum.ofBytes postings) ≠ header.checksum then
    throw (.checksumMismatch file.name)
  let keys ← format.decode (bytes.drop keysStart)
  if keys.size ≠ header.keyCount.toNat then
    throw (.keyCountMismatch keys.size header.keyCount.toNat)
  pure ⟨file.name, header, postings, keys⟩

def collection (index : Index) : Collection := index.header.collection

def contains (index : Index) (key : Key) : Bool := index.keys.contains key

/-- Where the block of a key ends. -/
def blockStop (index : Index) (key : Key) : Nat :=
  match index.keys.after? key with
  | some (_, next) => next
  | none => index.header.postingsLength.toNat

/-- The bytes of the block that starts at the offset of a key. -/
def blockAt (index : Index) (key : Key) (offset : Nat) : Except Error (List UInt8) :=
  let stop := index.blockStop key
  if stop < offset ∨ index.header.postingsLength.toNat < stop then
    .error (.blockOutside key offset stop)
  else .ok ((index.postings.drop offset).take (stop - offset))

/-- The bytes of the block of a key, if the index has the key. -/
def block? (index : Index) (key : Key) : Except Error (Option (List UInt8)) :=
  match index.keys.get? key with
  | some offset => (index.blockAt key offset).map some
  | none => .ok none

/-- A walk over the keys of an index in ascending order. -/
structure KeyWalk where
  current : Option (Key × Nat)

namespace KeyWalk

/-- A walk that stands on the first key. -/
def start (index : Index) : KeyWalk := ⟨index.keys.first?⟩

def isDone (walk : KeyWalk) : Bool := walk.current.isNone

def key? (walk : KeyWalk) : Option Key := walk.current.map (·.1)

/-- The walk on the next key.  A walk that is done stays done. -/
def next (index : Index) (walk : KeyWalk) : KeyWalk :=
  ⟨walk.current.bind fun entry => index.keys.after? entry.1⟩

/-- The current key with the bytes of its block. -/
def block (index : Index) (walk : KeyWalk) : Except Error (Key × List UInt8) :=
  match walk.current with
  | some (key, offset) => (index.blockAt key offset).map fun bytes => (key, bytes)
  | none => .error .keysExhausted

end KeyWalk

end Index

end Concordance
