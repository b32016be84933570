/-!
# The checksum of a byte string

The checksum is the reflected cyclic redundancy check of 32 bits with the
polynomial `0xEDB88320`, its register starting at all ones and inverted at the
end.
-/

namespace Concordance

namespace Checksum

def polynomial : BitVec 32 := 0xEDB88320#32

/-- Shift the register by one bit. -/
def shift (register : BitVec 32) : BitVec 32 :=
  if register.getLsbD 0 then (register >>> 1) ^^^ polynomial else register >>> 1

/-- Shift the register by several bits. -/
def shiftBy : Nat → BitVec 32 → BitVec 32
  | 0, register => register
  | bits + 1, register => shiftBy bits (shift register)

/-- Take one byte into the register. -/
def absorb (register : BitVec 32) (byte : UInt8) : BitVec 32 :=
  shiftBy 8 (register ^^^ byte.toBitVec.setWidth 32)

/-- The register before the first byte. -/
def start : BitVec 32 := BitVec.allOnes 32

/-- Take bytes into the register. -/
def absorbAll (register : BitVec 32) (bytes : List UInt8) : BitVec 32 :=
  bytes.foldl absorb register

/-- The checksum that a register stands for. -/
def result (register : BitVec 32) : BitVec 32 := ~~~ register

/-- The checksum of some bytes. -/
def ofBytes (bytes : List UInt8) : BitVec 32 := result (absorbAll start bytes)

/-- Bytes may come in parts. -/
theorem absorbAll_append (register : BitVec 32) (front back : List UInt8) :
    absorbAll register (front ++ back) = absorbAll (absorbAll register front) back :=
  List.foldl_append

end Checksum

end Concordance
