/-!
# Dropping repetitions

A list from which repetitions are dropped keeps its members.  When it is sorted
before, it is strictly sorted behind, so that every member stands in it once.
-/

namespace Concordance

variable {α : Type} [BEq α]

private theorem loop_eq (first : α) (later found : List α) :
    List.eraseRepsBy.loop (· == ·) first later found =
      found.reverse ++ List.eraseRepsBy.loop (· == ·) first later [] := by
  induction later generalizing first found with
  | nil => simp [List.eraseRepsBy.loop]
  | cons next later induction =>
      unfold List.eraseRepsBy.loop
      cases first == next with
      | true => exact induction first found
      | false =>
          dsimp only
          rw [induction next (first :: found), induction next [first]]
          simp

/-- A member is dropped where the one behind it is equal. -/
theorem eraseReps_cons_cons (first next : α) (later : List α) :
    (first :: next :: later).eraseReps =
      if first == next then (first :: later).eraseReps
      else first :: (next :: later).eraseReps := by
  unfold List.eraseReps List.eraseRepsBy
  dsimp only
  rw [List.eraseRepsBy.loop]
  cases first == next with
  | true => rfl
  | false => exact loop_eq next later [first]

variable [LawfulBEq α]

theorem mem_eraseReps_cons {member first : α} {later : List α} :
    member ∈ (first :: later).eraseReps ↔ member ∈ first :: later := by
  induction later generalizing first with
  | nil => exact Iff.rfl
  | cons next later induction =>
      rw [eraseReps_cons_cons]
      by_cases same : first = next
      · subst same
        rw [if_pos (BEq.refl first), induction]
        simp
      · rw [if_neg (by simpa using same), List.mem_cons, induction, ← List.mem_cons]

theorem mem_eraseReps {member : α} {members : List α} :
    member ∈ members.eraseReps ↔ member ∈ members := by
  cases members with
  | nil => exact Iff.rfl
  | cons first later => exact mem_eraseReps_cons

/-- In a sorted list equal members stand together, so that none is left twice. -/
theorem pairwise_eraseReps {order : α → α → Prop}
    (antisymmetric : ∀ first second, order first second → order second first → first = second)
    {members : List α} (sorted : members.Pairwise order) :
    members.eraseReps.Pairwise fun first second => order first second ∧ first ≠ second := by
  cases members with
  | nil => exact .nil
  | cons first later =>
      induction later generalizing first with
      | nil => exact List.pairwise_singleton _ _
      | cons next later induction =>
          obtain ⟨below, rest⟩ := List.pairwise_cons.mp sorted
          rw [eraseReps_cons_cons]
          by_cases same : first = next
          · subst same
            rw [if_pos (BEq.refl first)]
            exact induction first rest
          · rw [if_neg (by simpa using same)]
            refine List.pairwise_cons.mpr ⟨?_, induction next rest⟩
            intro other member
            have inside := mem_eraseReps.mp member
            refine ⟨below other inside, ?_⟩
            rintro rfl
            obtain ⟨belowNext, _⟩ := List.pairwise_cons.mp rest
            rcases List.mem_cons.mp inside with rfl | later
            · exact same rfl
            · exact same (antisymmetric _ _ (below next List.mem_cons_self)
                (belowNext _ later))

theorem length_eraseReps_le (members : List α) :
    members.eraseReps.length ≤ members.length := by
  cases members with
  | nil => exact Nat.le_refl _
  | cons first later =>
      induction later generalizing first with
      | nil => exact Nat.le_refl _
      | cons next later induction =>
          rw [eraseReps_cons_cons]
          by_cases same : first = next
          · rw [if_pos (by simpa using same)]
            exact Nat.le_trans (induction first) (Nat.le_succ _)
          · rw [if_neg (by simpa using same)]
            exact Nat.succ_le_succ (induction next)

end Concordance
