import Concordance.Step

/-!
# Variable-length numbers

A number is written in base 128, least significant group first.  Every byte
but the last has its top bit set.  Ten groups hold every 64-bit number, and of
the tenth only the lowest bit can be used.
-/

namespace Concordance

namespace Varint

/-- The bytes of a number. -/
def encode (number : Nat) : List UInt8 :=
  if number < 128 then [UInt8.ofNat number]
  else UInt8.ofNat (number % 128 + 128) :: encode (number / 128)

/-- Take one number off the front of some bytes, reading at most `groups`
groups.  The last group that may be read holds no more than one bit. -/
def takeGroups : Nat → List UInt8 → Except Error (Nat × List UInt8)
  | 0, _ => .error .numberOverflow
  | _ + 1, [] => .error .incompleteNumber
  | groups + 1, byte :: bytes =>
    if groups = 0 ∧ 1 < byte.toNat % 128 then .error .numberOverflow
    else if byte.toNat < 128 then .ok (byte.toNat, bytes)
    else
      match takeGroups groups bytes with
      | .ok (high, rest) => .ok (byte.toNat % 128 + 128 * high, rest)
      | .error cause => .error cause

/-- The number of groups that a 64-bit number may take. -/
def maxGroups : Nat := 10

/-- Take one 64-bit number off the front of some bytes. -/
def take64 (bytes : List UInt8) : Except Error (Nat × List UInt8) :=
  takeGroups maxGroups bytes

/-- Take one 32-bit number off the front of some bytes. -/
def take32 (bytes : List UInt8) : Except Error (Nat × List UInt8) := do
  let (number, rest) ← take64 bytes
  if number < 4294967296 then pure (number, rest) else throw (.numberTooWide number)

/-- Read one number from a stream; a failure leaves the stream as it was. -/
@[inline] def reading (take : List UInt8 → Except Error (Nat × List UInt8)) :
    Step (List UInt8) Nat := fun bytes =>
  match take bytes with
  | .ok (number, rest) => .ok number rest
  | .error cause => .error cause bytes

/-- Read one 64-bit number from a stream. -/
def read64 : Step (List UInt8) Nat := reading take64

/-- Read one 32-bit number from a stream. -/
def read32 : Step (List UInt8) Nat := reading take32

/-- The 64-bit number at the front of some bytes and how many bytes it takes. -/
def decode64 (bytes : List UInt8) : Except Error (Nat × Nat) := do
  let (number, rest) ← take64 bytes
  pure (number, bytes.length - rest.length)

/-- The 32-bit number at the front of some bytes and how many bytes it takes. -/
def decode32 (bytes : List UInt8) : Except Error (Nat × Nat) := do
  let (number, rest) ← take32 bytes
  pure (number, bytes.length - rest.length)

/-- Read at a position of some bytes with a step on a stream.  The position
moves over what the step reads and may lie behind the end. -/
def readingAt {α : Type} (read : Step (List UInt8) α) (bytes : List UInt8) :
    Step Nat α := fun position =>
  let ahead := bytes.drop position
  match read ahead with
  | .ok value rest => .ok value (position + (ahead.length - rest.length))
  | .error cause rest => .error cause (position + (ahead.length - rest.length))

end Varint

end Concordance
