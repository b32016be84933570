import Concordance.Proofs.Cursor.Turns

/-!
# Moving two broods side by side

The children of two parents that have the same trees in the same order stay alike as they are
moved, and their parents find the same among them.
-/

namespace Concordance

theorem DocId.le_top (doc : DocId) : doc ≤ top := Nat.le_of_lt_succ doc.val_lt

namespace Forest

variable {law : Leaf.Law}

/-! ## Moving two broods -/

theorem forall₂_of_map {α β γ : Type} {view : α → γ} {viewOther : β → γ} {members : List α}
    {others : List β} (same : members.map view = others.map viewOther) :
    List.Forall₂ (fun member other => member ∈ members ∧ other ∈ others ∧
      view member = viewOther other) members others := by
  induction members generalizing others with
  | nil =>
      rw [List.map_eq_nil_iff.mp same.symm]
      exact .nil
  | cons first members induction =>
      obtain ⟨other, others, rfl, here, rest⟩ := List.map_eq_cons_iff.mp same.symm
      refine .cons ⟨List.mem_cons_self, List.mem_cons_self, here.symm⟩ ?_
      refine (induction rest.symm).imp fun member other known => ?_
      obtain ⟨isMember, isOther, same⟩ := known
      exact ⟨List.mem_cons_of_mem _ isMember, List.mem_cons_of_mem _ isOther, same⟩

theorem map_eq_map_of {α β γ δ : Type} {view : α → γ} {viewOther : β → γ} {next : α → δ}
    {nextOther : β → δ} {members : List α} {others : List β}
    (same : members.map view = others.map viewOther)
    (carried : ∀ member ∈ members, ∀ other ∈ others, view member = viewOther other →
      next member = nextOther other) : members.map next = others.map nextOther := by
  have pairs := forall₂_of_map same
  rw [← List.forall₂_eq_eq_eq, List.forall₂_map_left_iff, List.forall₂_map_right_iff]
  refine pairs.imp fun member other known => ?_
  obtain ⟨isMember, isOther, same⟩ := known
  exact carried member isMember other isOther same

/-- Two broods with the same trees that can both be moved to a position. -/
structure Abreast (law : Leaf.Law) (brood rivals : Brood) (target : Nat) (forest other : Forest) :
    Prop where
  here : Ready brood.children (brood.Stands law) target forest
  there : Ready rivals.children (rivals.Stands law) target other
  same : brood.children.map forest.unfold = rivals.children.map other.unfold

namespace Abreast

variable {brood rivals : Brood} {target : Nat} {forest other : Forest}
  (abreast : Abreast law brood rivals target forest other)

include abreast

theorem later {higher : Nat} (above : target ≤ higher) :
    Abreast law brood rivals higher forest other :=
  ⟨abreast.here.later above, abreast.there.later above, abreast.same⟩

theorem positions : brood.children.map forest.position = rivals.children.map other.position := by
  apply map_eq_map_of abreast.same
  intro child isChild rival isRival same
  obtain ⟨_, _, poised⟩ := abreast.here child isChild
  obtain ⟨_, _, poisedRival⟩ := abreast.there rival isRival
  exact position_alike poised poisedRival same

theorem greatest_eq : forest.greatest brood.children = other.greatest rivals.children := by
  have known := congrArg (List.mapM id) abreast.positions
  rw [List.mapM_map, List.mapM_map] at known
  unfold greatest
  exact congrArg (· >>= _) known

theorem least_eq : forest.least brood.children = other.least rivals.children := by
  unfold least
  have known := congrArg (List.filterMap id) abreast.positions
  rw [List.filterMap_map, List.filterMap_map] at known
  exact congrArg _ known

theorem resembles (needed : Capabilities) (doc : DocId) :
    List.Forall₂ (Resembles needed doc forest other) brood.children rivals.children := by
  refine (forall₂_of_map abreast.same).imp fun child rival known => ?_
  obtain ⟨isChild, isRival, same⟩ := known
  obtain ⟨_, _, poised⟩ := abreast.here child isChild
  obtain ⟨_, _, poisedRival⟩ := abreast.there rival isRival
  refine ⟨?_, fun _ _ => count_alike same, fun _ _ => extents_alike same⟩
  rw [hasMatch, hasMatch, position_alike poised poisedRival same]

end Abreast

theorem Ready.standing {children : List Handle} {stands : Handle → Nat → Forest → Prop}
    {target : Nat} {forest : Forest} (ready : Ready children stands target forest) :
    ∀ child ∈ children, ∃ floor, stands child floor forest := by
  intro child member
  obtain ⟨floor, _, standing⟩ := ready child member
  exact ⟨floor, standing⟩

section Both

variable {brood rivals : Brood} {move rivalMove : Move} {combination : Combination}
  {start begin limit rivalLimit : Nat} {target : DocId} {forest other : Forest}
  (reliable : Reliable law move limit)
  (siblings : Siblings combination brood.children brood.offers brood.starts start limit)
  (reliableRival : Reliable law rivalMove rivalLimit)
  (siblingsRival : Siblings combination rivals.children rivals.offers rivals.starts begin
    rivalLimit)
  (across : MovesAlike law move rivalMove limit rivalLimit)
  (abreast : Abreast law brood rivals target.val forest other)

include reliable siblings reliableRival siblingsRival across abreast

theorem moveAll_both :
    (moveAll move target brood.children).Both (moveAll rivalMove target rivals.children)
      forest other fun _ after later => Abreast law brood rivals target.val after later ∧
        ∀ rival ∈ rivals.children, ∀ doc, later.position rival = some doc → target ≤ doc := by
  obtain ⟨after, run, moved⟩ := moveAll_each reliable siblings abreast.here
  obtain ⟨later, ran, movedRival⟩ :=
    moveAll_each reliableRival siblingsRival abreast.there
  have here : Ready brood.children (brood.Stands law) target.val after :=
    fun child member => ⟨_, Nat.le_refl _, (moved child member).stands⟩
  have there : Ready rivals.children (rivals.Stands law) target.val later :=
    fun rival member => ⟨_, Nat.le_refl _, (movedRival rival member).stands⟩
  refine ⟨(), after, later, run, ran, ⟨here, there, ?_⟩,
    fun rival member doc => (movedRival rival member).stands.reached⟩
  -- A child and its rival end alike, since each ends where moving it alone brings it.
  apply map_eq_map_of abreast.same
  intro child isChild rival isRival same
  obtain ⟨floor, _, poised⟩ := abreast.here child isChild
  obtain ⟨lower, _, poisedRival⟩ := abreast.there rival isRival
  rw [(moved child isChild).same, (movedRival rival isRival).same]
  exact (across forest other _ _ _ _ _ _ child rival floor lower target
    (siblings.inside child isChild).2 (siblingsRival.inside rival isRival).2 poised poisedRival
    same).endState

theorem align_both :
    (align move brood.children target).Both (align rivalMove rivals.children target) forest other
      fun found => Abreast law brood rivals (found.getD DocId.top).val := by
  induction measure : target.above using Nat.strongRecOn generalizing target forest other with
  | ind above induction =>
      rw [align, align]
      apply (moveAll_both reliable siblings reliableRival siblingsRival across abreast).bind
      rintro _ middle between ⟨moved, _⟩
      apply Step.both_behind (Step.get_run middle) (Step.get_run between)
      rw [moved.greatest_eq]
      cases between.greatest rivals.children with
      | none => exact Step.both_done rfl rfl (moved.later target.le_top)
      | some doc =>
          dsimp only
          by_cases further : target < doc
          · rw [if_pos further, if_pos further]
            exact induction doc.above (measure ▸ DocId.above_lt_above further)
              (moved.later (Nat.le_of_lt further)) rfl
          · rw [if_neg further, if_neg further]
            exact Step.both_done rfl rfl moved

theorem locate_both :
    (locate move combination brood.children target).Both
      (locate rivalMove combination rivals.children target) forest other
      fun found => Abreast law brood rivals (found.getD DocId.top).val := by
  unfold locate
  by_cases needs : combination.needsAll = true
  · rw [if_pos needs, if_pos needs]
    exact align_both reliable siblings reliableRival siblingsRival across abreast
  · rw [if_neg needs, if_neg needs]
    obtain ⟨⟨⟩, after, later, run, ran, moved, reached⟩ := moveAll_both reliable siblings
      reliableRival siblingsRival across abreast
    apply Step.both_behind run ran
    apply Step.both_behind (Step.get_run after) (Step.get_run later)
    rw [moved.least_eq]
    refine Step.both_done rfl rfl ?_
    rcases least_cases later rivals.children with
      ⟨none, _⟩ | ⟨doc, found, ⟨source, isSource, place⟩, _⟩
    · rw [none]
      exact moved.later target.le_top
    · rw [found]
      exact moved.later (reached source isSource doc place)

theorem seek_both :
    (seek move combination brood.children target).Both
      (seek rivalMove combination rivals.children target) forest other
      fun _ => Abreast law brood rivals DocId.top.val := by
  induction measure : target.above using Nat.strongRecOn generalizing target forest other with
  | ind above induction =>
      rw [seek, seek]
      apply (locate_both reliable siblings reliableRival siblingsRival across abreast).bind
      intro located middle between found
      cases located with
      | none => exact Step.both_done rfl rfl found
      | some doc =>
          have whole : ∀ child ∈ brood.children,
              Whole (brood.offers child) (brood.weights child) child middle := by
            intro child member
            obtain ⟨_, _, poised⟩ := found.here child member
            exact poised.whole
          obtain ⟨looked, same, _⟩ := matchAt_whole whole siblings.offered
          have sameRival := (matchAt_congr (found.resembles _ doc)).symm.trans same
          dsimp only
          apply Step.both_behind (Step.get_run middle) (Step.get_run between)
          apply Step.both_behind (Step.ofExcept_run same middle)
            (Step.ofExcept_run sameRival between)
          cases looked with
          | some _ => exact Step.both_done rfl rfl (found.later doc.le_top)
          | none =>
              dsimp only
              cases ahead : doc.next? with
              | none => exact Step.both_done rfl rfl (found.later doc.le_top)
              | some next =>
                  dsimp only
                  have step := DocId.next?_eq_some.mp ahead
                  by_cases further : target < next
                  · rw [if_pos further, if_pos further]
                    refine induction next.above (measure ▸ DocId.above_lt_above further)
                      (found.later ?_) rfl
                    dsimp only [Option.getD_some]
                    omega
                  · rw [if_neg further, if_neg further]
                    exact Step.both_done rfl rfl (found.later doc.le_top)

end Both

end Forest

end Concordance
