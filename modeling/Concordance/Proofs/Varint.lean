import Mathlib
import Concordance.Proofs.Step
import Concordance.Varint

/-!
# Reading what was written

A number that fits the word is read back from its own bytes, whatever bytes
stand behind them.  Bytes that nobody wrote are read as a number that fits the
word, or they are refused as corrupt.
-/

namespace Concordance

namespace Varint

theorem encode_small {number : Nat} (small : number < 128) :
    encode number = [UInt8.ofNat number] := by
  rw [encode, if_pos small]

theorem encode_large {number : Nat} (large : 128 ≤ number) :
    encode number = UInt8.ofNat (number % 128 + 128) :: encode (number / 128) := by
  rw [encode, if_neg (Nat.not_lt.mpr large)]

theorem encode_ne_nil (number : Nat) : encode number ≠ [] := by
  by_cases small : number < 128
  · simp [encode_small small]
  · simp [encode_large (Nat.le_of_not_lt small)]

theorem length_encode_pos (number : Nat) : 0 < (encode number).length :=
  List.length_pos_iff.mpr (encode_ne_nil number)

/-- A byte of a number holds seven bits of it. -/
theorem length_encode_le {groups number : Nat} (bound : number < 128 ^ (groups + 1)) :
    (encode number).length ≤ groups + 1 := by
  induction groups generalizing number with
  | zero =>
      rw [encode_small (by simpa using bound)]
      exact Nat.le_refl 1
  | succ groups induction =>
      by_cases small : number < 128
      · rw [encode_small small]
        exact Nat.succ_le_succ (Nat.zero_le _)
      · have high : number / 128 < 128 ^ (groups + 1) := by
          rw [Nat.pow_succ] at bound
          omega
        rw [encode_large (Nat.le_of_not_lt small), List.length_cons]
        exact Nat.succ_le_succ (induction high)

private theorem toNat_ofNat (number : Nat) (bound : number < 256) :
    (UInt8.ofNat number).toNat = number := by
  rw [UInt8.toNat_ofNat']
  exact Nat.mod_eq_of_lt bound

/-- Groups are read back as long as the last one that may be read has to hold
no more than one bit. -/
theorem takeGroups_encode {groups number : Nat} (rest : List UInt8)
    (bound : number < 2 * 128 ^ groups) :
    takeGroups (groups + 1) (encode number ++ rest) = .ok (number, rest) := by
  induction groups generalizing number with
  | zero =>
      have small : number < 2 := by simpa using bound
      have value := toNat_ofNat number (by omega)
      rw [encode_small (by omega)]
      simp only [List.cons_append, List.nil_append, takeGroups, value]
      rw [if_neg (by omega), if_pos (by omega)]
  | succ groups induction =>
      by_cases small : number < 128
      · have value := toNat_ofNat number (by omega)
        rw [encode_small small]
        simp only [List.cons_append, List.nil_append, takeGroups, value]
        rw [if_neg (by omega), if_pos small]
      · have value := toNat_ofNat (number % 128 + 128) (by omega)
        have high : number / 128 < 2 * 128 ^ groups := by
          rw [Nat.pow_succ] at bound
          omega
        rw [encode_large (Nat.le_of_not_lt small), List.cons_append, takeGroups]
        simp only [value, induction high]
        rw [if_neg (by omega), if_neg (by omega)]
        have low : (number % 128 + 128) % 128 + 128 * (number / 128) = number := by omega
        rw [low]

theorem take64_encode {number : Nat} (rest : List UInt8)
    (bound : number < 18446744073709551616) :
    take64 (encode number ++ rest) = .ok (number, rest) :=
  takeGroups_encode rest (by omega)

theorem take32_encode {number : Nat} (rest : List UInt8) (bound : number < 4294967296) :
    take32 (encode number ++ rest) = .ok (number, rest) := by
  unfold take32
  rw [take64_encode rest (by omega)]
  change (if number < 4294967296 then Except.ok (number, rest) else _) = _
  rw [if_pos bound]

theorem read64_encode {number : Nat} (rest : List UInt8)
    (bound : number < 18446744073709551616) :
    read64 (encode number ++ rest) = .ok number rest := by
  simp only [read64, reading, take64_encode rest bound]

theorem read32_encode {number : Nat} (rest : List UInt8) (bound : number < 4294967296) :
    read32 (encode number ++ rest) = .ok number rest := by
  simp only [read32, reading, take32_encode rest bound]

/-! ## Reading any bytes -/

/-- The causes for which no number can be taken off some bytes. -/
theorem takeGroups_error {groups : Nat} {bytes : List UInt8} {cause : Error}
    (failure : takeGroups groups bytes = .error cause) : cause.kind = .corruptIndex := by
  induction groups generalizing bytes with
  | zero =>
      cases failure
      rfl
  | succ groups induction =>
      cases bytes with
      | nil =>
          cases failure
          rfl
      | cons byte bytes =>
          rw [takeGroups] at failure
          split at failure
          · cases failure
            rfl
          · split at failure
            · cases failure
            · split at failure
              · cases failure
              · rename_i cause inner
                cases failure
                exact induction inner

/-- A number that was taken off some bytes stood in front of the rest, and it fits its groups. -/
theorem takeGroups_ok {groups number : Nat} {bytes rest : List UInt8}
    (taken : takeGroups (groups + 1) bytes = .ok (number, rest)) :
    rest <:+ bytes ∧ rest.length < bytes.length ∧ number < 2 * 128 ^ groups := by
  induction groups generalizing bytes number with
  | zero =>
      cases bytes with
      | nil => cases taken
      | cons byte bytes =>
          rw [takeGroups] at taken
          split at taken
          · cases taken
          · rename_i few
            split at taken
            · rename_i last
              cases taken
              have small : byte.toNat < 2 := by omega
              exact ⟨List.suffix_cons _ _, Nat.lt_succ_self _, by simpa using small⟩
            · cases taken
  | succ groups induction =>
      cases bytes with
      | nil => cases taken
      | cons byte bytes =>
          rw [takeGroups, if_neg (by omega)] at taken
          split at taken
          · rename_i last
            cases taken
            have room : 1 ≤ 128 ^ groups := Nat.one_le_pow _ _ (by omega)
            rw [Nat.pow_succ]
            exact ⟨List.suffix_cons _ _, Nat.lt_succ_self _, by omega⟩
          · split at taken
            · rename_i high behind inner
              cases taken
              obtain ⟨suffix, shorter, bound⟩ := induction inner
              rw [Nat.pow_succ]
              exact ⟨suffix.trans (List.suffix_cons byte bytes), Nat.lt_succ_of_lt shorter,
                by omega⟩
            · cases taken

theorem take64_ok {number : Nat} {bytes rest : List UInt8}
    (taken : take64 bytes = .ok (number, rest)) :
    rest <:+ bytes ∧ rest.length < bytes.length ∧ number < 18446744073709551616 :=
  takeGroups_ok taken

theorem read64_ends (bytes : List UInt8) :
    read64.Ends bytes
      (fun number rest => take64 bytes = .ok (number, rest))
      (fun cause => cause.kind = .corruptIndex) := by
  unfold Step.Ends read64 reading
  cases taken : take64 bytes with
  | ok pair => rfl
  | error cause => exact takeGroups_error taken

theorem read32_ends (bytes : List UInt8) :
    read32.Ends bytes
      (fun number rest => rest <:+ bytes ∧ rest.length < bytes.length ∧ number < 4294967296)
      (fun cause => cause.kind = .corruptIndex) := by
  unfold Step.Ends read32 reading take32
  cases taken : take64 bytes with
  | ok pair =>
      obtain ⟨number, rest⟩ := pair
      obtain ⟨suffix, shorter, _⟩ := take64_ok taken
      rw [Step.ok_bind]
      dsimp only
      by_cases fits : number < 4294967296
      · rw [if_pos fits]
        exact ⟨suffix, shorter, fits⟩
      · rw [if_neg fits]
        rfl
  | error cause => exact takeGroups_error taken

end Varint

end Concordance
