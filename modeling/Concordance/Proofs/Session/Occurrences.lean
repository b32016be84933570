import Mathlib
import Concordance.Session.OccurrenceCache

/-!
# Looking up occurrences

A look-up halves the pairs that are kept under a key until one is left.  On pairs in ascending
order of their documents it finds the count of each document that is among them, and of no
other.
-/

namespace Concordance

namespace OccurrenceCache

/-- Pairs in ascending order of their documents, each document once. -/
def Ascending (pairs : List (DocId × Nat)) : Prop :=
  pairs.Pairwise fun first second => first.1 < second.1

variable {pairs : List (DocId × Nat)} {doc : DocId} {base size : Nat}

theorem Ascending.less (ascending : Ascending pairs) {first second : Nat} {one other : DocId × Nat}
    (here : pairs[first]? = some one) (there : pairs[second]? = some other)
    (before : first < second) : one.1 < other.1 := by
  obtain ⟨inFirst, rfl⟩ := List.getElem?_eq_some_iff.mp here
  obtain ⟨inSecond, rfl⟩ := List.getElem?_eq_some_iff.mp there
  exact List.pairwise_iff_getElem.mp ascending first second inFirst inSecond before

/-! ## Halving -/

/-- A stretch of pairs with all those before it not above a document and all those behind it
above. -/
structure Brackets (pairs : List (DocId × Nat)) (doc : DocId) (base size : Nat) : Prop where
  low : base = 0 ∨ ∃ pair, pairs[base]? = some pair ∧ pair.1 ≤ doc
  high : ∀ (place : Nat) (pair : DocId × Nat), base + size ≤ place → pairs[place]? = some pair →
    doc < pair.1

theorem brackets_whole (pairs : List (DocId × Nat)) (doc : DocId) :
    Brackets pairs doc 0 pairs.length where
  low := .inl rfl
  high place pair behind known := by
    rw [List.getElem?_eq_none (by omega)] at known
    cases known

/-- The upper half is left out if its first pair is above the document. -/
theorem Brackets.lower_half (brackets : Brackets pairs doc base size)
    (ascending : Ascending pairs)
    (above : ∀ pair, pairs[base + size / 2]? = some pair → doc < pair.1) :
    Brackets pairs doc base (size - size / 2) where
  low := brackets.low
  high place pair behind known := by
    -- What is left reaches at least up to the pair in the middle.
    have reached : base + size / 2 ≤ place := by omega
    rcases Nat.lt_or_eq_of_le reached with before | same
    · obtain ⟨middle, there⟩ : ∃ middle, pairs[base + size / 2]? = some middle := by
        obtain ⟨inside, _⟩ := List.getElem?_eq_some_iff.mp known
        exact ⟨_, List.getElem?_eq_getElem (by omega)⟩
      exact Nat.lt_trans (above middle there) (ascending.less there known before)
    · exact above pair (same ▸ known)

theorem Brackets.upper_half (brackets : Brackets pairs doc base size) {pair : DocId × Nat}
    (known : pairs[base + size / 2]? = some pair) (below : pair.1 ≤ doc) :
    Brackets pairs doc (base + size / 2) (size - size / 2) where
  low := .inr ⟨pair, known, below⟩
  high place other behind there := brackets.high place other (by omega) there

/-- Halving ends on one pair. -/
theorem bisect_brackets (ascending : Ascending pairs) {limit : Nat} (enough : size ≤ limit)
    (brackets : Brackets pairs doc base size) :
    Brackets pairs doc (bisect pairs.toArray doc limit base size) 1 := by
  induction limit generalizing base size with
  | zero =>
      rw [bisect]
      exact ⟨brackets.low, fun place pair behind => brackets.high place pair (by omega)⟩
  | succ limit induction =>
      rw [bisect]
      dsimp only
      by_cases small : size ≤ 1
      · rw [if_pos small]
        exact ⟨brackets.low, fun place pair behind => brackets.high place pair (by omega)⟩
      · rw [if_neg small, List.getElem?_toArray]
        cases known : pairs[base + size / 2]? with
        | none =>
            refine induction (by omega) (brackets.lower_half ascending fun pair impossible => ?_)
            rw [known] at impossible
            cases impossible
        | some pair =>
            by_cases above : doc < pair.1
            · simp only [above, decide_true, if_true]
              refine induction (by omega) (brackets.lower_half ascending fun other same => ?_)
              rw [known] at same
              cases same
              exact above
            · simp only [above, decide_false, Bool.false_eq_true, if_false]
              exact induction (by omega) (brackets.upper_half known (DocId.not_lt.mp above))

/-! ## Counts -/

/-- The count of a document in ascending pairs is the one that it stands with. -/
theorem countIn_eq_some (ascending : Ascending pairs) {count : Nat} :
    countIn pairs doc = some count ↔ (doc, count) ∈ pairs := by
  have enough : pairs.length ≤ pairs.toArray.size := Nat.le_of_eq (List.size_toArray).symm
  obtain ⟨low, high⟩ := bisect_brackets ascending enough (brackets_whole pairs doc)
  rw [← List.size_toArray] at low high
  generalize place : bisect pairs.toArray doc pairs.toArray.size 0 pairs.toArray.size = found
    at low high
  unfold countIn
  dsimp only
  rw [place, List.getElem?_toArray]
  constructor
  · intro known
    cases held : pairs[found]? with
    | none =>
        rw [held] at known
        cases known
    | some pair =>
        rw [held] at known
        obtain ⟨rfl, same⟩ := Option.ite_none_right_eq_some.mp known
        cases same
        exact List.mem_of_getElem? held
  · intro member
    obtain ⟨other, held⟩ := List.getElem?_of_mem member
    have upTo : other ≤ found := by
      apply Nat.le_of_not_lt
      intro behind
      exact Nat.lt_irrefl _ (high other _ behind held)
    have same : other = found := by
      rcases low with first | ⟨pair, there, below⟩
      · omega
      · refine Nat.le_antisymm upTo (Nat.not_lt.mp fun before => ?_)
        exact absurd below (Nat.not_le.mpr (ascending.less held there before))
    rw [← same, held]
    exact if_pos rfl

theorem fst_get? (cache : OccurrenceCache) (key : String) :
    (cache.get? key).1 = cache.entries.get? key := by
  unfold get?
  cases cache.entries.get? key <;> rfl

/-- A look-up answers with the count that is kept for a document, if there is one. -/
theorem count?_eq_some {cache : OccurrenceCache} {key : String}
    (ascending : ∀ pairs, cache.entries.get? key = some pairs → Ascending pairs) {count : Nat} :
    (cache.count? key doc).1 = some count ↔
      ∃ pairs, cache.entries.get? key = some pairs ∧ (doc, count) ∈ pairs := by
  unfold count? get?
  cases held : cache.entries.get? key with
  | none => simp
  | some pairs => simpa using countIn_eq_some (ascending pairs held)

/-- Publishing replaces what is kept under one key. -/
theorem get?_publish (cache : OccurrenceCache) (key other : String)
    (pairs : List (DocId × Nat)) :
    (cache.publish key pairs).entries.get? other =
      if other = key then some pairs else cache.entries.get? other :=
  TextMap.get?_insert cache.entries key other pairs

end OccurrenceCache

end Concordance
