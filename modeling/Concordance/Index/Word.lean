/-!
# Words

The fixed-width numbers of an index file are written with the least
significant byte first.
-/

namespace Concordance

namespace Index

/-- The lowest bytes of a number, the least significant one first. -/
def littleEndian : Nat → Nat → List UInt8
  | 0, _ => []
  | width + 1, number => UInt8.ofNat (number % 256) :: littleEndian width (number / 256)

/-- The number with these bytes, the least significant one first. -/
def ofLittleEndian : List UInt8 → Nat
  | [] => 0
  | byte :: bytes => byte.toNat + 256 * ofLittleEndian bytes

end Index

end Concordance
