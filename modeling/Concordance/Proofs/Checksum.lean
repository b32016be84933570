import Mathlib
import Concordance.Checksum

/-!
# What a checksum tells apart

A shift of the register is linear in exclusive or and loses nothing, so two registers that differ
still differ behind the same bytes.  Up to four bytes that are taken in one after the other shift
the register as one word does that they spell.  Both together show that no two byte strings that
differ in four adjacent bytes only have the same checksum.
-/

namespace Concordance

namespace Checksum

/-! ## The register -/

theorem shift_xor (first second : BitVec 32) :
    shift (first ^^^ second) = shift first ^^^ shift second := by
  unfold shift
  rw [BitVec.getLsbD_xor, BitVec.ushiftRight_xor_distrib]
  -- The polynomial is taken in once, twice or not at all.
  cases first.getLsbD 0 <;> cases second.getLsbD 0
  · rfl
  · exact BitVec.xor_assoc _ _ _
  · simp only [Bool.xor_false, if_true, Bool.false_eq_true, if_false]
    rw [BitVec.xor_assoc, BitVec.xor_comm (second >>> 1), ← BitVec.xor_assoc]
  · simp only [Bool.xor_self, Bool.false_eq_true, if_false, if_true]
    rw [BitVec.xor_comm (second >>> 1), ← BitVec.xor_assoc,
      BitVec.xor_assoc _ polynomial polynomial, BitVec.xor_self, BitVec.xor_zero]

/-- The top bit of a register that was shifted shows the bit that was shifted out. -/
theorem shift_top (register : BitVec 32) :
    (shift register).getLsbD 31 = register.getLsbD 0 := by
  have cleared : (register >>> 1).getLsbD 31 = false := by
    rw [BitVec.getLsbD_ushiftRight]
    exact BitVec.getLsbD_of_ge _ _ (by decide)
  have top : polynomial.getLsbD 31 = true := by decide
  unfold shift
  cases register.getLsbD 0
  · exact cleared
  · rw [if_pos rfl, BitVec.getLsbD_xor, cleared, top]
    rfl

theorem shift_eq_zero {register : BitVec 32} (zero : shift register = 0#32) :
    register = 0#32 := by
  have lowest : register.getLsbD 0 = false := by
    rw [← shift_top, zero]
    rfl
  have higher : register >>> 1 = 0#32 := by
    unfold shift at zero
    rwa [lowest, if_neg Bool.false_ne_true] at zero
  apply BitVec.eq_of_getLsbD_eq
  intro bit _
  rw [BitVec.getLsbD_zero]
  cases bit with
  | zero => exact lowest
  | succ bit =>
      have shifted := congrArg (fun held : BitVec 32 => held.getLsbD bit) higher
      simpa [BitVec.getLsbD_ushiftRight, Nat.add_comm] using shifted

theorem shiftBy_xor (bits : Nat) (first second : BitVec 32) :
    shiftBy bits (first ^^^ second) = shiftBy bits first ^^^ shiftBy bits second := by
  induction bits generalizing first second with
  | zero => rfl
  | succ bits induction => rw [shiftBy, shift_xor, induction, shiftBy, shiftBy]

theorem shiftBy_eq_zero {bits : Nat} {register : BitVec 32}
    (zero : shiftBy bits register = 0#32) : register = 0#32 := by
  induction bits generalizing register with
  | zero => exact zero
  | succ bits induction => exact shift_eq_zero (induction zero)

theorem shiftBy_injective (bits : Nat) : Function.Injective (shiftBy bits) := by
  intro first second same
  have zero : shiftBy bits (first ^^^ second) = 0#32 := by
    rw [shiftBy_xor, same, BitVec.xor_self]
  exact BitVec.xor_eq_zero_iff.mp (shiftBy_eq_zero zero)

theorem shiftBy_add (bits more : Nat) (register : BitVec 32) :
    shiftBy (bits + more) register = shiftBy more (shiftBy bits register) := by
  induction bits generalizing register with
  | zero => rw [Nat.zero_add, shiftBy]
  | succ bits induction => rw [Nat.succ_add, shiftBy, induction, shiftBy]

/-- Bits that are shifted out as zeros change nothing. -/
theorem shiftBy_shiftLeft {bits : Nat} {register : BitVec 32}
    (clear : ∀ bit, 32 ≤ bit + bits → register.getLsbD bit = false) :
    shiftBy bits (register <<< bits) = register := by
  induction bits with
  | zero => rw [BitVec.shiftLeft_zero, shiftBy]
  | succ bits induction =>
      have lowest : (register <<< (bits + 1)).getLsbD 0 = false := by
        simp
      have back : (register <<< (bits + 1)) >>> 1 = register <<< bits := by
        apply BitVec.eq_of_getLsbD_eq
        intro bit inside
        simp only [BitVec.getLsbD_ushiftRight, BitVec.getLsbD_shiftLeft]
        by_cases last : bit = 31
        · have gone : register.getLsbD (bit - bits) = false := clear (bit - bits) (by omega)
          rw [gone, Bool.and_false, decide_eq_false (by omega)]
          rfl
        · have place : 1 + bit - (bits + 1) = bit - bits := by omega
          have narrow : 1 + bit < 32 := by omega
          have below : 1 + bit < bits + 1 ↔ bit < bits := by omega
          rw [place, decide_eq_true narrow, decide_eq_true inside, decide_eq_decide.mpr below]
      rw [shiftBy, shift, lowest, if_neg Bool.false_ne_true, back]
      exact induction fun bit above => clear bit (by omega)

/-! ## Words of bytes -/

/-- The word that up to four bytes spell, the first of them in its lowest bits. -/
def word : List UInt8 → BitVec 32
  | [] => 0#32
  | byte :: bytes => byte.toBitVec.setWidth 32 ^^^ word bytes <<< 8

theorem word_high {bytes : List UInt8} {bit : Nat} (above : 8 * bytes.length ≤ bit) :
    (word bytes).getLsbD bit = false := by
  induction bytes generalizing bit with
  | nil => exact BitVec.getLsbD_zero
  | cons byte bytes induction =>
      rw [List.length_cons] at above
      have low : byte.toBitVec.getLsbD bit = false := BitVec.getLsbD_of_ge _ _ (by omega)
      have high : (word bytes).getLsbD (bit - 8) = false := induction (by omega)
      rw [word, BitVec.getLsbD_xor, BitVec.getLsbD_setWidth, BitVec.getLsbD_shiftLeft, low, high,
        Bool.and_false, Bool.and_false, Bool.xor_false]

theorem shiftBy_word {bytes : List UInt8} (few : bytes.length < 4) :
    shiftBy 8 (word bytes <<< 8) = word bytes :=
  shiftBy_shiftLeft fun _ above => word_high (by omega)

theorem word_low (byte : UInt8) (bytes : List UInt8) :
    (word (byte :: bytes)).setWidth 8 = byte.toBitVec := by
  apply BitVec.eq_of_getLsbD_eq
  intro bit inside
  have shifted : (word bytes <<< 8).getLsbD bit = false := by
    rw [BitVec.getLsbD_shiftLeft, decide_eq_true inside]
    simp
  have narrow : bit < 32 := by omega
  rw [BitVec.getLsbD_setWidth, word, BitVec.getLsbD_xor, BitVec.getLsbD_setWidth, shifted,
    decide_eq_true inside, decide_eq_true narrow, Bool.xor_false, Bool.true_and, Bool.true_and]

/-- At most four bytes are known from their word. -/
theorem word_inj {first second : List UInt8} (lengths : first.length = second.length)
    (few : first.length ≤ 4) (same : word first = word second) : first = second := by
  induction first generalizing second with
  | nil => exact (List.length_eq_zero_iff.mp lengths.symm).symm
  | cons byte first induction =>
      cases second with
      | nil => cases lengths
      | cons other second =>
          have bytes : byte = other := by
            apply UInt8.toBitVec_inj.mp
            rw [← word_low byte first, same, word_low]
          subst bytes
          rw [List.length_cons, List.length_cons] at lengths
          rw [List.length_cons] at few
          have behind : word first <<< 8 = word second <<< 8 :=
            (BitVec.xor_right_inj (byte.toBitVec.setWidth 32)).mp same
          have words : word first = word second := by
            rw [← @shiftBy_word first (by omega), behind, shiftBy_word (by omega)]
          rw [induction (Nat.succ.inj lengths) (by omega) words]

/-! ## Taking in bytes -/

theorem absorb_injective (byte : UInt8) :
    Function.Injective fun register => absorb register byte := by
  intro first second same
  exact (BitVec.xor_left_inj _).mp (shiftBy_injective 8 same)

/-- The same bytes keep two registers apart. -/
theorem absorbAll_injective (bytes : List UInt8) :
    Function.Injective fun register => absorbAll register bytes := by
  induction bytes with
  | nil => exact fun _ _ same => same
  | cons byte bytes induction => exact induction.comp (absorb_injective byte)

/-- At most four bytes are taken in as one word. -/
theorem absorbAll_word {register : BitVec 32} {bytes : List UInt8} (few : bytes.length ≤ 4) :
    absorbAll register bytes = shiftBy (8 * bytes.length) (register ^^^ word bytes) := by
  induction bytes generalizing register with
  | nil => exact (BitVec.xor_zero).symm
  | cons byte bytes induction =>
      rw [List.length_cons] at few
      have later : absorbAll register (byte :: bytes) = absorbAll (absorb register byte) bytes :=
        rfl
      have joined : absorb register byte ^^^ word bytes =
          shiftBy 8 (register ^^^ word (byte :: bytes)) := by
        have behind := @shiftBy_word bytes (by omega)
        calc
          absorb register byte ^^^ word bytes =
              shiftBy 8 (register ^^^ byte.toBitVec.setWidth 32) ^^^
                shiftBy 8 (word bytes <<< 8) := by
            rw [absorb, behind]
          _ = shiftBy 8 (register ^^^ word (byte :: bytes)) := by
            rw [← shiftBy_xor, BitVec.xor_assoc, word]
      rw [later, induction (by omega), joined, List.length_cons, Nat.mul_succ, Nat.add_comm,
        shiftBy_add]

/-- Byte strings that differ in at most four adjacent bytes have different checksums. -/
theorem ofBytes_middle_inj {front first second back : List UInt8}
    (lengths : first.length = second.length) (few : first.length ≤ 4)
    (same : ofBytes (front ++ (first ++ back)) = ofBytes (front ++ (second ++ back))) :
    first = second := by
  have registers := BitVec.not_inj.mp same
  rw [absorbAll_append, absorbAll_append, absorbAll_append, absorbAll_append] at registers
  have middles := absorbAll_injective back registers
  have fewToo : second.length ≤ 4 := lengths.symm.trans_le few
  rw [absorbAll_word few, absorbAll_word fewToo, lengths] at middles
  exact word_inj lengths few ((BitVec.xor_right_inj _).mp (shiftBy_injective _ middles))

end Checksum

end Concordance
