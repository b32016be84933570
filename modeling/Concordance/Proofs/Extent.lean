import Concordance.Extent

/-!
# Well-ordered lists of extents

The extents of a posting are each the right way round and stand in ascending
order of their starts.  That is what the check before storing them asks for.
-/

namespace Concordance

namespace Extent

/-- Extents that are the right way round and sorted by start. -/
structure WellOrdered (extents : List Extent) : Prop where
  forward : ∀ extent ∈ extents, extent.start ≤ extent.stop
  ascending : extents.Pairwise fun first second => first.start ≤ second.start

theorem inOrder_cons_iff {floor : Nat} {extent : Extent} {extents : List Extent} :
    inOrder floor (extent :: extents) = true ↔
      (extent.start ≤ extent.stop ∧ floor ≤ extent.start) ∧
        inOrder extent.start extents = true := by
  rw [inOrder]
  by_cases refused : extent.stop < extent.start ∨ extent.start < floor
  · rw [if_pos (by simpa using refused)]
    constructor
    · intro impossible
      cases impossible
    · rintro ⟨⟨forward, above⟩, _⟩
      omega
  · rw [if_neg (by simpa using refused)]
    constructor
    · intro later
      exact ⟨⟨by omega, by omega⟩, later⟩
    · exact fun both => both.2

theorem inOrder_iff {floor : Nat} {extents : List Extent} :
    inOrder floor extents = true ↔
      (∀ extent ∈ extents, floor ≤ extent.start) ∧ WellOrdered extents := by
  induction extents generalizing floor with
  | nil => exact ⟨fun _ => ⟨by simp, by simp, .nil⟩, fun _ => rfl⟩
  | cons extent extents induction =>
      rw [inOrder_cons_iff, induction]
      constructor
      · rintro ⟨⟨forward, above⟩, later, ordered⟩
        refine ⟨?_, ?_, List.pairwise_cons.mpr ⟨later, ordered.ascending⟩⟩
        · intro member inside
          rcases List.mem_cons.mp inside with rfl | inside
          · exact above
          · exact Nat.le_trans above (later member inside)
        · intro member inside
          rcases List.mem_cons.mp inside with rfl | inside
          · exact forward
          · exact ordered.forward member inside
      · rintro ⟨above, forward, ascending⟩
        obtain ⟨first, rest⟩ := List.pairwise_cons.mp ascending
        have head := List.mem_cons_self (a := extent) (l := extents)
        refine ⟨⟨forward extent head, above extent head⟩, first, ?_, rest⟩
        intro member inside
        exact forward member (List.mem_cons_of_mem _ inside)

theorem inOrder_zero_iff {extents : List Extent} :
    inOrder 0 extents = true ↔ WellOrdered extents := by
  rw [inOrder_iff]
  exact ⟨fun both => both.2, fun ordered => ⟨fun _ _ => Nat.zero_le _, ordered⟩⟩

instance (extents : List Extent) : Decidable (WellOrdered extents) :=
  decidable_of_iff (inOrder 0 extents = true) inOrder_zero_iff

theorem WellOrdered.concat {extents : List Extent} {extent : Extent}
    (ordered : WellOrdered extents.reverse) (forward : extent.start ≤ extent.stop)
    (above : ∀ last, extents.head? = some last → last.start ≤ extent.start) :
    WellOrdered (extent :: extents).reverse := by
  have descending := List.pairwise_reverse.mp ordered.ascending
  refine ⟨?_, List.pairwise_reverse.mpr (List.pairwise_cons.mpr ⟨?_, descending⟩)⟩
  · intro member inside
    rcases List.mem_cons.mp (List.mem_reverse.mp inside) with rfl | inside
    · exact forward
    · exact ordered.forward member (List.mem_reverse.mpr inside)
  · intro member inside
    cases extents with
    | nil => cases inside
    | cons last extents =>
        have top := above last rfl
        rcases List.mem_cons.mp inside with rfl | inside
        · exact top
        · exact Nat.le_trans ((List.pairwise_cons.mp descending).1 member inside) top

theorem WellOrdered.sublist {part whole : List Extent} (ordered : WellOrdered whole)
    (sublist : part.Sublist whole) : WellOrdered part :=
  ⟨fun extent member => ordered.forward extent (sublist.mem member),
    ordered.ascending.sublist sublist⟩

end Extent

end Concordance
