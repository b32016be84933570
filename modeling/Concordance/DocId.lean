/-!
# Document identifiers

A document is named by a 64-bit number.  Identifiers are ordered by that
number, and every one but the top has a next one.
-/

namespace Concordance

/-- The name of a document: a number below `2 ^ 64`. -/
structure DocId where
  val : Nat
  val_lt : val < 18446744073709551616 := by omega
  deriving DecidableEq

namespace DocId

instance : LT DocId := ⟨fun first second => first.val < second.val⟩
instance : LE DocId := ⟨fun first second => first.val ≤ second.val⟩

instance (first second : DocId) : Decidable (first < second) :=
  inferInstanceAs (Decidable (first.val < second.val))

instance (first second : DocId) : Decidable (first ≤ second) :=
  inferInstanceAs (Decidable (first.val ≤ second.val))

/-- The least identifier. -/
def zero : DocId := ⟨0, by omega⟩

/-- The greatest identifier. -/
def top : DocId := ⟨18446744073709551615, by omega⟩

instance : Inhabited DocId := ⟨zero⟩

/-- The identifier with this number, which wraps around. -/
def ofNat (number : Nat) : DocId :=
  ⟨number % 18446744073709551616, Nat.mod_lt _ (Nat.zero_lt_succ _)⟩

/-- The identifier with this number, if the number is in range. -/
def ofNat? (number : Nat) : Option DocId :=
  if bound : number < 18446744073709551616 then some ⟨number, bound⟩ else none

/-- The least identifier above this one. -/
def next? (doc : DocId) : Option DocId := ofNat? (doc.val + 1)

/-- How many identifiers lie above this one. -/
def above (doc : DocId) : Nat := top.val - doc.val

theorem eq_of_val_eq {first second : DocId} (same : first.val = second.val) :
    first = second := by
  cases first
  cases second
  simp_all

theorem lt_iff {first second : DocId} : first < second ↔ first.val < second.val := Iff.rfl

theorem le_iff {first second : DocId} : first ≤ second ↔ first.val ≤ second.val := Iff.rfl

theorem not_le {first second : DocId} : ¬first ≤ second ↔ second < first := Nat.not_le

theorem not_lt {first second : DocId} : ¬first < second ↔ second ≤ first := Nat.not_lt

theorem above_lt_above {first second : DocId} (less : first < second) :
    second.above < first.above := by
  have bound := second.val_lt
  have lessVal := lt_iff.mp less
  simp only [above, top]
  omega

theorem ofNat?_eq_some {number : Nat} {doc : DocId} :
    ofNat? number = some doc ↔ doc.val = number := by
  unfold ofNat?
  split
  · simp only [Option.some.injEq]
    exact ⟨fun same => by rw [← same], fun same => eq_of_val_eq same.symm⟩
  · rename_i outside
    constructor
    · simp
    · intro same
      exact absurd (same ▸ doc.val_lt) outside

theorem next?_eq_some {doc next : DocId} :
    doc.next? = some next ↔ next.val = doc.val + 1 := ofNat?_eq_some

theorem next?_eq_none {doc : DocId} : doc.next? = none ↔ doc = top := by
  have bound := doc.val_lt
  unfold next? ofNat?
  split
  · rename_i inside
    simp only [reduceCtorEq, false_iff]
    intro same
    rw [same] at inside
    simp [top] at inside
  · rename_i outside
    simp only [true_iff]
    apply eq_of_val_eq
    simp only [top]
    omega

end DocId

end Concordance
