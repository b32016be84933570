import Concordance.Checksum
import Concordance.Index.Word
import Concordance.Statistics.Basic

/-!
# The header of an index file

An index file is its header of 60 bytes, the blocks of postings and the key
dictionary, in this order and without gaps.  The header is a record of words,
each written with its least significant byte first.
-/

namespace Concordance

namespace Index

structure Header where
  magic : UInt32
  version : UInt32
  keyCount : UInt64
  /-- Bytes of the postings region, which starts right behind the header. -/
  postingsLength : UInt64
  /-- Where the key dictionary starts in the file. -/
  keysOffset : UInt64
  keysLength : UInt64
  /-- Checksum of the postings region. -/
  checksum : UInt32
  collectionLength : UInt64
  documentCount : UInt64
  deriving DecidableEq

namespace Header

/-- The word at the start of every index file. -/
def fileMagic : UInt32 := 0x58444958

def currentVersion : UInt32 := 1

/-- Bytes of a header. -/
def size : Nat := 60

/-- The header of an index without postings and without a place for keys. -/
def blank : Header :=
  { magic := fileMagic
    version := currentVersion
    keyCount := 0
    postingsLength := 0
    keysOffset := 0
    keysLength := 0
    checksum := 0
    collectionLength := 0
    documentCount := 0 }

/-- The header of a file with these postings, this key dictionary of `count` keys
right behind them, and a collection of this size. -/
def ofRegions (postings keys : List UInt8) (count : Nat) (collection : Collection) : Header :=
  { magic := fileMagic
    version := currentVersion
    keyCount := count.toUInt64
    postingsLength := postings.length.toUInt64
    keysOffset := (size + postings.length).toUInt64
    keysLength := keys.length.toUInt64
    checksum := UInt32.ofBitVec (Checksum.ofBytes postings)
    collectionLength := collection.length.toUInt64
    documentCount := collection.documents.toUInt64 }

def encode (header : Header) : List UInt8 :=
  littleEndian 4 header.magic.toNat ++ littleEndian 4 header.version.toNat
    ++ littleEndian 8 header.keyCount.toNat ++ littleEndian 8 header.postingsLength.toNat
    ++ littleEndian 8 header.keysOffset.toNat ++ littleEndian 8 header.keysLength.toNat
    ++ littleEndian 4 header.checksum.toNat
    ++ littleEndian 8 header.collectionLength.toNat
    ++ littleEndian 8 header.documentCount.toNat

/-- The 32-bit word at an offset. -/
def word32 (bytes : List UInt8) (offset : Nat) : UInt32 :=
  UInt32.ofNat (ofLittleEndian ((bytes.drop offset).take 4))

/-- The 64-bit word at an offset. -/
def word64 (bytes : List UInt8) (offset : Nat) : UInt64 :=
  UInt64.ofNat (ofLittleEndian ((bytes.drop offset).take 8))

/-- The fields of a header, whatever they are. -/
def ofBytes (bytes : List UInt8) : Header :=
  { magic := word32 bytes 0
    version := word32 bytes 4
    keyCount := word64 bytes 8
    postingsLength := word64 bytes 16
    keysOffset := word64 bytes 24
    keysLength := word64 bytes 32
    checksum := word32 bytes 40
    collectionLength := word64 bytes 44
    documentCount := word64 bytes 52 }

/-- The header at the front of a file. -/
def decode (bytes : List UInt8) : Except Error Header := do
  if bytes.length < size then throw (.fileTooShort bytes.length)
  let header := ofBytes (bytes.take size)
  if header.magic ≠ fileMagic then throw .notAnIndex
  if header.version ≠ currentVersion then throw (.incompatibleVersion header.version.toNat)
  pure header

/-- Offsets in a file are 64-bit words. -/
def offsetLimit : Nat := 18446744073709551616

/-- Where the postings start and stop. -/
def postingsRange (header : Header) : Except Error (Nat × Nat) :=
  let stop := size + header.postingsLength.toNat
  if stop < offsetLimit then .ok (size, stop) else .error .postingsOverflow

/-- Where the key dictionary starts and stops, which is behind the postings. -/
def keysRange (header : Header) : Except Error (Nat × Nat) :=
  let start := header.keysOffset.toNat
  let stop := start + header.keysLength.toNat
  if start ≠ size + header.postingsLength.toNat then .error .keysMisplaced
  else if stop < offsetLimit then .ok (start, stop)
  else .error .keysOverflow

def collection (header : Header) : Collection :=
  ⟨header.collectionLength.toNat, header.documentCount.toNat⟩

end Header

end Index

end Concordance
