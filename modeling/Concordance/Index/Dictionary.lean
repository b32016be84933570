import Concordance.Index.Word
import Concordance.Key
import Concordance.Step

/-!
# The key dictionary

A dictionary maps keys to the offsets of their blocks.  Its entries stand in
ascending order of the keys.  In a file it is a marker, the number of entries
and the bytes that they take, followed for each entry by the length of the key,
the key and the offset.  All numbers are words of 64 bits.
-/

namespace Concordance

namespace Index

/-- Keys with the offsets of their blocks, in ascending order of the keys. -/
structure Dictionary where
  entries : List (Key × Nat)
  deriving DecidableEq

namespace Dictionary

def empty : Dictionary := ⟨[]⟩

/-- Put an offset under a key into entries that ascend. -/
def putOffset (key : Key) (offset : Nat) : List (Key × Nat) → List (Key × Nat)
  | [] => [(key, offset)]
  | (other, held) :: entries =>
    if key < other then (key, offset) :: (other, held) :: entries
    else if key = other then (key, offset) :: entries
    else (other, held) :: putOffset key offset entries

/-- Put an offset under a key, in place of the one there. -/
def insert (dictionary : Dictionary) (key : Key) (offset : Nat) : Dictionary :=
  ⟨putOffset key offset dictionary.entries⟩

def size (dictionary : Dictionary) : Nat := dictionary.entries.length

/-- The offset under a key. -/
def get? (dictionary : Dictionary) (key : Key) : Option Nat := dictionary.entries.lookup key

def contains (dictionary : Dictionary) (key : Key) : Bool := (dictionary.get? key).isSome

/-- The entry with the least key. -/
def first? (dictionary : Dictionary) : Option (Key × Nat) := dictionary.entries.head?

/-- The entry with the least key above a key. -/
def after? (dictionary : Dictionary) (key : Key) : Option (Key × Nat) :=
  dictionary.entries.find? fun entry => key < entry.1

/-- Whether each key is above the one before it. -/
def isAscending : List (Key × Nat) → Bool
  | [] => true
  | [_] => true
  | first :: second :: later => first.1 < second.1 && isAscending (second :: later)

/-- Bytes of a number in a dictionary. -/
def wordSize : Nat := 8

def encodeWord (number : Nat) : List UInt8 := littleEndian wordSize number

/-- The word in front of every dictionary. -/
def marker : Nat := 0x5359454B

def encodeEntry (entry : Key × Nat) : List UInt8 :=
  encodeWord entry.1.length ++ entry.1 ++ encodeWord entry.2

def encode (dictionary : Dictionary) : List UInt8 :=
  let body := dictionary.entries.flatMap encodeEntry
  encodeWord marker ++ encodeWord dictionary.size ++ encodeWord body.length ++ body

/-- Take some bytes off the front of a stream. -/
def readBytes (length : Nat) : Step (List UInt8) (List UInt8) := do
  let bytes ← get
  let taken := bytes.take length
  if taken.length < length then throw .malformedDictionary
  set (bytes.drop length)
  pure taken

/-- Take a number off the front of a stream. -/
def readWord : Step (List UInt8) Nat := do
  let bytes ← readBytes wordSize
  pure (ofLittleEndian bytes)

/-- Read entries behind those found already. -/
def readEntries : Nat → Array (Key × Nat) → Step (List UInt8) (Array (Key × Nat))
  | 0, found => pure found
  | missing + 1, found => do
    let length ← readWord
    let key ← readBytes length
    let offset ← readWord
    readEntries missing (found.push (key, offset))

/-- Read the whole of a dictionary. -/
def read : Step (List UInt8) Dictionary := do
  if (← readWord) ≠ marker then throw .malformedDictionary
  let count ← readWord
  let length ← readWord
  if (← get).length ≠ length then throw .malformedDictionary
  let entries ← readEntries count #[]
  if !(← get).isEmpty || !isAscending entries.toList then throw .malformedDictionary
  pure ⟨entries.toList⟩

/-- The dictionary with these bytes. -/
def decode (bytes : List UInt8) : Except Error Dictionary :=
  read.evaluate bytes

end Dictionary

/-- A way to keep a dictionary in a file. -/
structure KeyFormat where
  encode : Dictionary → List UInt8
  decode : List UInt8 → Except Error Dictionary

/-- The format described above. -/
def KeyFormat.plain : KeyFormat := ⟨Dictionary.encode, Dictionary.decode⟩

end Index

end Concordance
