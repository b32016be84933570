import Mathlib
import Concordance.Statistics.Basic
import Concordance.DocId

/-!
# Figures of matches

The figures of some matches are their number, the sum of their counts and the
greatest of them.  Leaving matches out never makes a figure greater.
-/

namespace Concordance

namespace Statistics

/-- The figures of some matches, each with its count. -/
def of (node : String) (collection : Collection) (pairs : List (DocId × Nat)) : Statistics :=
  { node := node
    frequency := (pairs.map Prod.snd).sum
    documents := pairs.length
    maximum := (pairs.map Prod.snd).foldl max 0
    collection := collection }

variable {node : String} {collection : Collection}

theorem of_concat (pairs : List (DocId × Nat)) (pair : DocId × Nat)
    (frequency : (of node collection (pairs ++ [pair])).frequency < counterLimit)
    (documents : (of node collection (pairs ++ [pair])).documents < counterLimit) :
    (of node collection pairs).addMatch pair.2 = .ok (of node collection (pairs ++ [pair])) := by
  simp only [of, List.map_append, List.map_singleton, List.sum_append, List.sum_singleton,
    List.length_append, List.length_singleton] at frequency documents
  have bounds : (of node collection pairs).frequency + pair.2 < counterLimit ∧
      (of node collection pairs).documents + 1 < counterLimit := ⟨frequency, documents⟩
  rw [addMatch, if_pos bounds]
  simp [of]

/-- Adding up matches gives their figures, as long as the counters hold them. -/
theorem addMatches_of (front back : List (DocId × Nat))
    (frequency : (of node collection (front ++ back)).frequency < counterLimit)
    (documents : (of node collection (front ++ back)).documents < counterLimit) :
    (of node collection front).addMatches back = .ok (of node collection (front ++ back)) := by
  induction back generalizing front with
  | nil =>
      rw [List.append_nil]
      rfl
  | cons pair back induction =>
      have regrouped : front ++ pair :: back = (front ++ [pair]) ++ back := by simp
      rw [regrouped] at frequency documents ⊢
      have partFrequency : (of node collection (front ++ [pair])).frequency ≤
          (of node collection (front ++ [pair] ++ back)).frequency := by simp [of]
      have partDocuments : (of node collection (front ++ [pair])).documents ≤
          (of node collection (front ++ [pair] ++ back)).documents := by simp [of]
      have first := of_concat front pair (Nat.lt_of_le_of_lt partFrequency frequency)
        (Nat.lt_of_le_of_lt partDocuments documents)
      rw [addMatches, List.foldlM_cons, first]
      exact induction (front ++ [pair]) frequency documents

/-! ## Leaving matches out -/

/-- Figures that were added up are those of all matches. -/
theorem addMatches_eq_ok {front back : List (DocId × Nat)} {figures : Statistics}
    (added : (of node collection front).addMatches back = .ok figures) :
    figures = of node collection (front ++ back) := by
  induction back generalizing front with
  | nil =>
      cases added
      rw [List.append_nil]
  | cons pair back induction =>
      rw [addMatches, List.foldlM_cons] at added
      by_cases bounds : (of node collection front).frequency + pair.2 < counterLimit ∧
          (of node collection front).documents + 1 < counterLimit
      · have step : (of node collection front).addMatch pair.2 =
            .ok (of node collection (front ++ [pair])) := by
          rw [addMatch, if_pos bounds]
          simp [of]
        rw [step] at added
        rw [List.append_cons]
        exact induction added
      · rw [addMatch, if_neg bounds] at added
        cases added

/-- Each match occurs. -/
def Occurring (pairs : List (DocId × Nat)) : Prop := ∀ pair ∈ pairs, 0 < pair.2

theorem occurring_nil : Occurring [] := fun _ impossible => nomatch impossible

theorem Occurring.push {found : Array (DocId × Nat)} (occurring : Occurring found.toList)
    {pair : DocId × Nat} (occurs : 0 < pair.2) : Occurring (found.push pair).toList := by
  intro other member
  rw [Array.toList_push] at member
  rcases List.mem_append.mp member with earlier | last
  · exact occurring other earlier
  · rw [List.mem_singleton.mp last]
    exact occurs

/-- There are no more matching documents than occurrences. -/
theorem documents_le_frequency {pairs : List (DocId × Nat)} (occurring : Occurring pairs) :
    (of node collection pairs).documents ≤ (of node collection pairs).frequency := by
  induction pairs with
  | nil => exact Nat.le_refl 0
  | cons pair pairs induction =>
      obtain ⟨here, later⟩ := List.forall_mem_cons.mp occurring
      have rest := induction later
      simp only [of, List.length_cons, List.map_cons, List.sum_cons] at rest ⊢
      omega

theorem foldl_max_bounds (counts : List Nat) (start : Nat) :
    start ≤ counts.foldl max start ∧ counts.foldl max start ≤ start + counts.sum ∧
      ∀ count ∈ counts, count ≤ counts.foldl max start := by
  induction counts generalizing start with
  | nil => simp
  | cons count counts induction =>
      obtain ⟨above, below, all⟩ := induction (max start count)
      rw [List.foldl_cons, List.sum_cons]
      refine ⟨by omega, by omega, ?_⟩
      exact List.forall_mem_cons.mpr ⟨by omega, all⟩

theorem isConsistent_iff {figures : Statistics} :
    figures.isConsistent = true ↔ figures.documents ≤ figures.frequency ∧
      figures.maximum ≤ figures.frequency ∧ (figures.maximum = 0 ↔ figures.documents = 0) := by
  have both : ((figures.maximum == 0) == (figures.documents == 0)) = true ↔
      (figures.maximum = 0 ↔ figures.documents = 0) := by
    rw [beq_iff_eq, Bool.eq_iff_iff, beq_iff_eq, beq_iff_eq]
  simp only [isConsistent, Bool.and_eq_true, decide_eq_true_eq, both, and_assoc]

/-- The figures of matches that all occur are consistent. -/
theorem of_isConsistent {pairs : List (DocId × Nat)} (occurring : Occurring pairs) :
    (of node collection pairs).isConsistent = true := by
  obtain ⟨_, maximum, greatest⟩ := foldl_max_bounds (pairs.map Prod.snd) 0
  have few := @documents_le_frequency node collection pairs occurring
  have zero : (of node collection pairs).maximum = 0 ↔
      (of node collection pairs).documents = 0 := by
    cases pairs with
    | nil => exact Iff.rfl
    | cons pair pairs =>
        have here := occurring pair List.mem_cons_self
        have reached := greatest pair.2 List.mem_cons_self
        simp only [of, List.length_cons, Nat.add_eq_zero_iff, Nat.one_ne_zero, and_false, iff_false]
        omega
  have below : (of node collection pairs).maximum ≤ (of node collection pairs).frequency := by
    simp only [of]
    omega
  exact isConsistent_iff.mpr ⟨few, below, zero⟩

theorem Occurring.filter {pairs : List (DocId × Nat)} (occurring : Occurring pairs)
    (kept : DocId × Nat → Bool) : Occurring (pairs.filter kept) :=
  fun pair member => occurring pair (List.mem_of_mem_filter member)

variable (kept : DocId × Nat → Bool) (pairs : List (DocId × Nat))

theorem frequency_filter_le :
    (of node collection (pairs.filter kept)).frequency ≤ (of node collection pairs).frequency := by
  induction pairs with
  | nil => exact Nat.le_refl 0
  | cons pair pairs induction =>
      simp only [of] at induction ⊢
      rw [List.filter_cons]
      split <;> simp only [List.map_cons, List.sum_cons] <;> omega

theorem documents_filter_le :
    (of node collection (pairs.filter kept)).documents ≤ (of node collection pairs).documents :=
  List.length_filter_le kept pairs

private theorem foldl_max_filter_le {first second : Nat} (below : first ≤ second) :
    ((pairs.filter kept).map Prod.snd).foldl max first ≤ (pairs.map Prod.snd).foldl max second := by
  induction pairs generalizing first second with
  | nil => exact below
  | cons pair pairs induction =>
      rw [List.filter_cons]
      split
      · exact induction (by omega)
      · exact induction (by omega)

theorem maximum_filter_le :
    (of node collection (pairs.filter kept)).maximum ≤ (of node collection pairs).maximum :=
  foldl_max_filter_le kept pairs (Nat.le_refl 0)

/-- The number of documents tells whether a match was left out. -/
theorem documents_filter_eq_iff :
    (of node collection (pairs.filter kept)).documents = (of node collection pairs).documents ↔
      ∀ pair ∈ pairs, kept pair = true := List.length_filter_eq_length_iff

/-- So does the number of occurrences. -/
theorem frequency_filter_eq_iff (occurring : Occurring pairs) :
    (of node collection (pairs.filter kept)).frequency = (of node collection pairs).frequency ↔
      ∀ pair ∈ pairs, kept pair = true := by
  induction pairs with
  | nil => exact ⟨fun _ _ impossible => (nomatch impossible), fun _ => rfl⟩
  | cons pair pairs induction =>
      obtain ⟨here, later⟩ := List.forall_mem_cons.mp occurring
      have rest := induction later
      have below : ((pairs.filter kept).map Prod.snd).sum ≤ (pairs.map Prod.snd).sum :=
        @frequency_filter_le node collection kept pairs
      rw [List.forall_mem_cons, ← rest, List.filter_cons]
      simp only [of, List.map_cons, List.sum_cons]
      by_cases stays : kept pair = true
      · rw [if_pos stays, List.map_cons, List.sum_cons]
        constructor
        · intro same
          exact ⟨stays, by omega⟩
        · intro same
          have := same.2
          omega
      · rw [if_neg stays]
        constructor
        · intro same
          omega
        · intro same
          exact absurd same.1 stays

end Statistics

end Concordance
