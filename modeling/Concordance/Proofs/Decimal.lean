import Concordance.Decimal.Reader
import Concordance.Statistics.Basic

/-!
# Whole numbers in digits

A whole number reads back from the digits that it is written in.  What else is read as a number
of 64 bits without a sign are other spellings with digits: zeros and a plus may stand first.
-/

namespace Concordance

namespace Decimal

/-- A whole number is read from at least one digit and nothing else. -/
theorem natural?_eq_some {digits : List Char} {count : Nat} :
    natural? digits = .some count ↔ digits ≠ [] ∧ (∀ digit ∈ digits, digit.isDigit = true) ∧
      Nat.ofDigitChars 10 digits 0 = count := by
  have same : digitsValue 0 digits = Nat.ofDigitChars 10 digits 0 := by
    simp [digitsValue, Nat.ofDigitChars, Nat.mul_comm]
  rw [natural?, ← same]
  by_cases spelled : digits.isEmpty = false ∧ digits.all Char.isDigit = true
  · obtain ⟨some, numeric⟩ := spelled
    rw [some, numeric, if_neg (by decide), Option.some.injEq]
    have nonempty : digits ≠ [] := by simpa using some
    exact ⟨fun value => ⟨nonempty, List.all_eq_true.mp numeric, value⟩, fun known => known.2.2⟩
  · constructor
    · intro read
      split at read
      · cases read
      · rename_i fine
        simp only [Bool.or_eq_true, not_or, Bool.not_eq_true, Bool.not_eq_false'] at fine
        exact absurd fine spelled
    · rintro ⟨nonempty, numeric, _⟩
      exact absurd ⟨by simpa using nonempty, List.all_eq_true.mpr numeric⟩ spelled

theorem natural?_toDigits (value : Nat) : natural? (Nat.toDigits 10 value) = some value :=
  natural?_eq_some.mpr ⟨Nat.toDigits_ne_nil,
    fun _ member => Nat.isDigit_of_mem_toDigits (by omega) (by omega) member,
    Nat.ofDigitChars_toDigits (by omega) (by omega)⟩

/-- Only digits are written. -/
theorem not_mem_toDigits (char : Char) (other : char.isDigit = false) (value : Nat) :
    char ∉ Nat.toDigits 10 value := by
  intro member
  rw [Nat.isDigit_of_mem_toDigits (by omega) (by omega) member] at other
  cases other

/-- The number that digits spell, below the bound of counters. -/
structure Digits (digits : List Char) (count : Nat) : Prop where
  some : digits ≠ []
  numeric : ∀ digit ∈ digits, digit.isDigit = true
  value : Nat.ofDigitChars 10 digits 0 = count
  bound : count < Statistics.counterLimit

theorem digits_toDigits {count : Nat} (bound : count < Statistics.counterLimit) :
    Digits (Nat.toDigits 10 count) count where
  some := Nat.toDigits_ne_nil
  numeric _ member := Nat.isDigit_of_mem_toDigits (by omega) (by omega) member
  value := Nat.ofDigitChars_toDigits (by omega) (by omega)
  bound := bound

/-- A counter is digits with at most a plus before them. -/
theorem unsigned64?_eq_some {text : List Char} {count : Nat} :
    unsigned64? text = .some count ↔
      ∃ sign digits, text = sign ++ digits ∧ (sign = [] ∨ sign = ['+']) ∧ Digits digits count := by
  have limit {digits : List Char} : (do
      let value ← natural? digits
      if value < 18446744073709551616 then Option.some value else none) = .some count ↔
        Digits digits count := by
    constructor
    · intro read
      obtain ⟨value, spelled, kept⟩ := Option.bind_eq_some_iff.mp read
      obtain ⟨some, numeric, sum⟩ := natural?_eq_some.mp spelled
      split at kept
      · rename_i bound
        cases kept
        exact ⟨some, numeric, sum, bound⟩
      · cases kept
    · intro spelled
      have read := natural?_eq_some.mpr ⟨spelled.some, spelled.numeric, spelled.value⟩
      exact Option.bind_eq_some_iff.mpr ⟨count, read, if_pos spelled.bound⟩
  constructor
  · intro read
    unfold unsigned64? at read
    split at read
    · exact ⟨['+'], _, rfl, .inr rfl, limit.mp read⟩
    · exact ⟨[], text, rfl, .inl rfl, limit.mp read⟩
  · rintro ⟨sign, digits, rfl, rfl | rfl, spelled⟩
    · -- The first digit is no sign.
      obtain ⟨digit, later, rfl⟩ := List.exists_cons_of_ne_nil spelled.some
      have numeric := spelled.numeric digit List.mem_cons_self
      unfold unsigned64?
      split
      · rename_i same
        obtain ⟨rfl, _⟩ := List.cons.inj same
        cases numeric
      · exact limit.mpr spelled
    · exact limit.mpr spelled

end Decimal

end Concordance
