import Concordance.Cursor.Forest

/-!
# Where cursors stand

A combination looks at the documents on which its children stand: at the
greatest of them if all have to agree, and at the least one otherwise.
-/

namespace Concordance

namespace Forest

theorem position_of_candidate {forest : Forest} {handle : Handle} {doc : DocId}
    (shown : forest.candidate handle = .ok doc) : forest.position handle = some doc := by
  unfold candidate at shown
  split at shown
  · cases shown
    assumption
  · cases shown

theorem mapM_position {forest : Forest} {handles : List Handle} {docs : List DocId}
    (shown : handles.mapM forest.position = some docs) :
    handles.map forest.position = docs.map some := by
  induction handles generalizing docs with
  | nil =>
      cases shown
      rfl
  | cons first handles induction =>
      rw [List.mapM_cons] at shown
      obtain ⟨doc, here, shown⟩ := Option.bind_eq_some_iff.mp shown
      obtain ⟨rest, later, same⟩ := Option.bind_eq_some_iff.mp shown
      cases same
      rw [List.map_cons, List.map_cons, here, induction later]

theorem mapM_position_none {forest : Forest} {handles : List Handle}
    (hidden : handles.mapM forest.position = none) :
    ∃ child ∈ handles, forest.position child = none := by
  induction handles with
  | nil => cases hidden
  | cons first handles induction =>
      cases here : forest.position first with
      | none => exact ⟨first, List.mem_cons_self, here⟩
      | some doc =>
          rw [List.mapM_cons, here] at hidden
          cases later : handles.mapM forest.position with
          | none =>
              obtain ⟨child, member, same⟩ := induction later
              exact ⟨child, List.mem_cons_of_mem _ member, same⟩
          | some docs =>
              rw [later] at hidden
              cases hidden

/-- The greatest of some documents and a first one is among them, and none of
them lies above it. -/
theorem foldl_greatest (start : DocId) (docs : List DocId) :
    let most := docs.foldl (fun most doc => if most < doc then doc else most) start
    most ∈ start :: docs ∧ ∀ doc ∈ start :: docs, doc ≤ most := by
  induction docs generalizing start with
  | nil => exact ⟨List.mem_cons_self, by simp [DocId.le_iff]⟩
  | cons doc docs induction =>
      obtain ⟨member, above⟩ := induction (if start < doc then doc else start)
      obtain ⟨whole, others⟩ := List.forall_mem_cons.mp above
      have parts : start ≤ (if start < doc then doc else start) ∧
          doc ≤ (if start < doc then doc else start) := by
        simp only [DocId.le_iff, DocId.lt_iff]
        split <;> omega
      simp only [DocId.le_iff] at whole parts
      constructor
      · rw [List.foldl_cons]
        rcases List.mem_cons.mp member with same | inside
        · rw [same]
          split
          · exact List.mem_cons_of_mem _ List.mem_cons_self
          · exact List.mem_cons_self
        · exact List.mem_cons_of_mem _ (List.mem_cons_of_mem _ inside)
      · rw [List.foldl_cons]
        refine List.forall_mem_cons.mpr ⟨?_, List.forall_mem_cons.mpr ⟨?_, others⟩⟩
        · exact Nat.le_trans parts.1 whole
        · exact Nat.le_trans parts.2 whole

theorem greatest_none {forest : Forest} {handles : List Handle}
    (hidden : forest.greatest handles = none) :
    ∃ child ∈ handles, forest.position child = none := by
  unfold greatest at hidden
  cases shown : handles.mapM forest.position with
  | none => exact mapM_position_none shown
  | some docs =>
      rw [shown] at hidden
      cases hidden

theorem greatest_some {forest : Forest} {handles : List Handle} {most : DocId}
    (shown : forest.greatest handles = some most) :
    (∀ child ∈ handles, ∃ doc, forest.position child = some doc ∧ doc ≤ most) ∧
      (most = DocId.zero ∨ ∃ child ∈ handles, forest.position child = some most) := by
  unfold greatest at shown
  obtain ⟨docs, mapped, same⟩ := Option.bind_eq_some_iff.mp shown
  have positions := mapM_position mapped
  obtain ⟨member, above⟩ := foldl_greatest DocId.zero docs
  rw [Option.some.inj same] at member above
  have belongs : ∀ doc ∈ docs, ∃ child ∈ handles, forest.position child = some doc := by
    intro doc inside
    have known : some doc ∈ handles.map forest.position := by
      rw [positions]
      exact List.mem_map_of_mem inside
    obtain ⟨child, isChild, same⟩ := List.mem_map.mp known
    exact ⟨child, isChild, same⟩
  constructor
  · intro child isChild
    have known : forest.position child ∈ docs.map some := by
      rw [← positions]
      exact List.mem_map_of_mem isChild
    obtain ⟨doc, inside, same⟩ := List.mem_map.mp known
    exact ⟨doc, same.symm, above doc (List.mem_cons_of_mem _ inside)⟩
  · rcases List.mem_cons.mp member with zero | inside
    · exact .inl zero
    · exact .inr (belongs most inside)

/-- The least document so far. -/
def lesser (found : Option DocId) (doc : DocId) : Option DocId :=
  match found with
  | some most => if doc < most then some doc else some most
  | none => some doc

theorem foldl_lesser (start : DocId) (docs : List DocId) :
    ∃ least ∈ start :: docs, docs.foldl lesser (some start) = some least ∧
      ∀ doc ∈ start :: docs, least ≤ doc := by
  induction docs generalizing start with
  | nil => exact ⟨start, List.mem_cons_self, rfl, by simp [DocId.le_iff]⟩
  | cons doc docs induction =>
      have step : lesser (some start) doc = some (if doc < start then doc else start) := by
        unfold lesser
        dsimp only
        split <;> rfl
      obtain ⟨least, member, same, below⟩ := induction (if doc < start then doc else start)
      obtain ⟨whole, others⟩ := List.forall_mem_cons.mp below
      have parts : (if doc < start then doc else start) ≤ start ∧
          (if doc < start then doc else start) ≤ doc := by
        simp only [DocId.le_iff, DocId.lt_iff]
        split <;> omega
      refine ⟨least, ?_, ?_, ?_⟩
      · rcases List.mem_cons.mp member with same | inside
        · rw [same]
          split
          · exact List.mem_cons_of_mem _ List.mem_cons_self
          · exact List.mem_cons_self
        · exact List.mem_cons_of_mem _ (List.mem_cons_of_mem _ inside)
      · rw [List.foldl_cons, step, same]
      · refine List.forall_mem_cons.mpr ⟨?_, List.forall_mem_cons.mpr ⟨?_, others⟩⟩
        · exact Nat.le_trans whole parts.1
        · exact Nat.le_trans whole parts.2

theorem least_cases (forest : Forest) (handles : List Handle) :
    (forest.least handles = none ∧ ∀ child ∈ handles, forest.position child = none) ∨
      ∃ doc, forest.least handles = some doc ∧
        (∃ child ∈ handles, forest.position child = some doc) ∧
        ∀ child ∈ handles, ∀ other, forest.position child = some other → doc ≤ other := by
  have folded : forest.least handles =
      (handles.filterMap forest.position).foldl lesser none := rfl
  cases shown : handles.filterMap forest.position with
  | nil =>
      refine .inl ⟨by rw [folded, shown]; rfl, ?_⟩
      exact List.filterMap_eq_nil_iff.mp shown
  | cons first docs =>
      obtain ⟨least, member, same, below⟩ := foldl_lesser first docs
      rw [← shown] at member below
      refine .inr ⟨least, by rw [folded, shown]; exact same, List.mem_filterMap.mp member, ?_⟩
      intro child isChild other here
      exact below other (List.mem_filterMap.mpr ⟨child, isChild, here⟩)

end Forest

end Concordance
