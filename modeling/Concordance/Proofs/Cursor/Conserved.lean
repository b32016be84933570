import Concordance.Proofs.Cursor.Calls

/-!
# What calls conserve

Whatever a cursor is asked for, places change in two ways only: a leaf is moved or ended, and a
combination takes what it finds over its children, or nothing.  A relation between forests that
puts up with both holds across every call, on any cursor and with any success.
-/

namespace Concordance

/-- What a leaf turns into when it is called. -/
inductive Leaf.Becomes (leaf : Leaf) : Leaf → Prop where
  | moved (target : DocId) : Becomes leaf (Step.endState (Leaf.moveTo target) leaf)
  | ended : Becomes leaf leaf.exhaust

namespace Forest

/-- A match is one that a combination finds over its children where they stand. -/
def Makes (forest : Forest) (combination : Combination) (children : List Handle)
    (next : Option Match) : Prop :=
  ∀ found, next = some found → ∃ doc, forest.matchAt combination children doc = .ok (some found)

theorem makes_none (forest : Forest) (combination : Combination) (children : List Handle) :
    forest.Makes combination children none :=
  fun _ impossible => nomatch impossible

/-- Seeking ends on a match that the children make where they are left. -/
theorem seek_makes {move : Move} {combination : Combination} {children : List Handle}
    {target : DocId} {forest after : Forest} {next : Option Match}
    (sought : seek move combination children target forest = .ok next after) :
    after.Makes combination children next := by
  induction measure : target.above using Nat.strongRecOn generalizing target forest with
  | ind above induction =>
      rw [seek] at sought
      obtain ⟨located, middle, _, sought⟩ := Step.bind_eq_ok sought
      cases located with
      | none =>
          cases sought
          exact makes_none _ combination children
      | some doc =>
          dsimp only at sought
          rw [Step.bind_ok _ (Step.get_run middle)] at sought
          -- Nothing moves any more between the look at the children and the end.
          obtain ⟨looked, _, known, sought⟩ := Step.bind_eq_ok sought
          obtain ⟨same, rfl⟩ := Step.ofExcept_eq_ok known
          cases looked with
          | some found =>
              cases sought
              rintro _ ⟨⟩
              exact ⟨doc, same⟩
          | none =>
              dsimp only at sought
              cases ahead : doc.next? with
              | none =>
                  rw [ahead] at sought
                  cases sought
                  exact makes_none _ combination children
              | some later =>
                  rw [ahead] at sought
                  dsimp only at sought
                  by_cases further : target < later
                  · rw [if_pos further] at sought
                    exact induction later.above (measure ▸ DocId.above_lt_above further) sought rfl
                  · rw [if_neg further] at sought
                    cases sought
                    exact makes_none _ combination children

/-- A relation that puts up with what calls do to leaves and to combinations.  A combination takes
its match after its children were moved, so its place is looked up before that and filled after. -/
structure Conserved (keeps : Forest → Forest → Prop) : Prop where
  refl : ∀ forest, keeps forest forest
  trans : ∀ first second third, keeps first second → keeps second third → keeps first third
  leaf : ∀ forest handle before after, forest.cursor handle = .leaf before →
    before.Becomes after → keeps forest (forest.put handle (.leaf after))
  composite : ∀ before forest handle (composite : Composite) next,
    before.cursor handle = .composite composite → keeps before forest →
    forest.Makes composite.combination composite.children next →
    keeps before (forest.put handle (.composite { composite with current := next }))

/-- A step across which a relation holds, even if it fails. -/
def Conserves {α : Type} (keeps : Forest → Forest → Prop) (step : Step Forest α) : Prop :=
  ∀ forest, keeps forest (step.endState forest)

section Steps

variable {α β : Type} {keeps : Forest → Forest → Prop}

theorem Conserves.of_ok {step : Step Forest α} (conserves : Conserves keeps step) {value : α}
    {forest after : Forest} (run : step forest = .ok value after) : keeps forest after :=
  Step.endState_ok run ▸ conserves forest

theorem Conserves.of_error {step : Step Forest α} (conserves : Conserves keeps step)
    {cause : Error} {forest after : Forest} (run : step forest = .error cause after) :
    keeps forest after :=
  Step.endState_error run ▸ conserves forest

namespace Conserved

variable (conserved : Conserved keeps)

include conserved

theorem pure (value : α) : Conserves keeps (Pure.pure value : Step Forest α) := conserved.refl

theorem get : Conserves keeps (MonadState.get : Step Forest Forest) := conserved.refl

theorem throw (cause : Error) : Conserves keeps (MonadExcept.throw cause : Step Forest α) :=
  conserved.refl

theorem ofExcept (result : Except Error α) :
    Conserves keeps (Step.ofExcept result : Step Forest α) := by
  cases result with
  | ok value => exact conserved.pure value
  | error cause => exact conserved.throw cause

theorem bind {first : Step Forest α} {next : α → Step Forest β} (begun : Conserves keeps first)
    (later : ∀ value, Conserves keeps (next value)) : Conserves keeps (first >>= next) :=
  fun forest => Step.endState_trans keeps conserved.trans (begun forest)
    fun value middle _ => later value middle

theorem checked {result : Except Error α} {next : α → Step Forest β}
    (later : ∀ value, result = .ok value → Conserves keeps (next value)) :
    Conserves keeps (Step.ofExcept result >>= next) := by
  cases result with
  | ok value => exact later value rfl
  | error cause => exact conserved.throw cause

/-! ## Moving -/

section Moves

variable {move : Move} (moves : ∀ handle target, Conserves keeps (move handle target))

include moves

theorem moveAll (target : DocId) (children : List Handle) :
    Conserves keeps (moveAll move target children) := by
  induction children with
  | nil => exact conserved.pure ()
  | cons child children induction =>
      rw [Forest.moveAll]
      exact conserved.bind (moves child target) fun _ => induction

theorem align (children : List Handle) (target : DocId) :
    Conserves keeps (align move children target) := by
  induction measure : target.above using Nat.strongRecOn generalizing target with
  | ind above induction =>
      rw [Forest.align]
      refine conserved.bind (conserved.moveAll moves target children) fun _ =>
        conserved.bind conserved.get fun middle => ?_
      cases middle.greatest children with
      | none => exact conserved.pure none
      | some doc =>
          dsimp only
          by_cases further : target < doc
          · rw [if_pos further]
            exact induction doc.above (measure ▸ DocId.above_lt_above further) doc rfl
          · rw [if_neg further]
            exact conserved.pure (some target)

theorem locate (combination : Combination) (children : List Handle) (target : DocId) :
    Conserves keeps (locate move combination children target) := by
  unfold Forest.locate
  cases combination.needsAll with
  | true => exact conserved.align moves children target
  | false =>
      refine conserved.bind (conserved.moveAll moves target children) fun _ =>
        conserved.bind conserved.get fun middle => ?_
      exact conserved.pure (middle.least children)

theorem seek (combination : Combination) (children : List Handle) (target : DocId) :
    Conserves keeps (seek move combination children target) := by
  induction measure : target.above using Nat.strongRecOn generalizing target with
  | ind above induction =>
      rw [Forest.seek]
      refine conserved.bind (conserved.locate moves combination children target) fun located => ?_
      cases located with
      | none => exact conserved.pure none
      | some doc =>
          refine conserved.bind conserved.get fun middle =>
            conserved.bind (conserved.ofExcept _) fun looked => ?_
          cases looked with
          | some found => exact conserved.pure (some found)
          | none =>
              dsimp only
              cases doc.next? with
              | none => exact conserved.pure none
              | some next =>
                  dsimp only
                  by_cases further : target < next
                  · rw [if_pos further]
                    exact induction next.above (measure ▸ DocId.above_lt_above further) next rfl
                  · rw [if_neg further]
                    exact conserved.pure none

end Moves

theorem moveWithin (depth : Nat) (handle : Handle) (target : DocId) :
    Conserves keeps (moveWithin depth handle target) := by
  induction depth generalizing handle target with
  | zero => exact conserved.pure ()
  | succ depth induction =>
      intro forest
      cases here : forest.cursor handle with
      | null key =>
          have run := @moveWithin_null depth forest handle target key here
          exact (Step.endState_ok run).symm ▸ conserved.refl forest
      | leaf leaf =>
          have moved := conserved.leaf forest handle leaf _ here (.moved target)
          have run := @moveWithin_leaf depth forest handle target leaf here
          cases ended : Leaf.moveTo target leaf with
          | ok value after =>
              rw [ended] at run
              rw [Step.endState_ok ended] at moved
              exact (Step.endState_ok run).symm ▸ moved
          | error cause after =>
              rw [ended] at run
              rw [Step.endState_error ended] at moved
              exact (Step.endState_error run).symm ▸ moved
      | feature wrapper =>
          have run := @moveWithin_feature depth forest handle target wrapper here
          rw [Step.endState, run]
          exact induction wrapper.child target forest
      | composite composite =>
          rcases below_or_stays composite.current target with ⟨found, shown, below⟩ | stays
          · have kept := conserved.seek induction composite.combination composite.children target
            have run :=
              @moveWithin_seeks depth forest handle composite found target here shown below
            cases sought : Forest.seek (Forest.moveWithin depth) composite.combination
                composite.children target forest with
            | ok next after =>
                rw [sought] at run
                exact (Step.endState_ok run).symm ▸ conserved.composite forest after handle
                  composite next here (kept.of_ok sought) (seek_makes sought)
            | error cause after =>
                rw [sought] at run
                exact (Step.endState_error run).symm ▸ kept.of_error sought
          · have run := @moveWithin_run depth forest handle composite target here stays
            exact (Step.endState_ok run).symm ▸ conserved.refl forest

theorem moveTo (handle : Handle) (target : DocId) : Conserves keeps (moveTo handle target) :=
  conserved.moveWithin _ handle target

theorem exhaustWithin (depth : Nat) (handle : Handle) (forest : Forest) :
    keeps forest (exhaustWithin depth handle forest) := by
  induction depth generalizing handle with
  | zero => exact conserved.refl forest
  | succ depth induction =>
      rw [Forest.exhaustWithin]
      cases here : forest.cursor handle with
      | null key => exact conserved.refl forest
      | leaf leaf => exact conserved.leaf forest handle leaf _ here .ended
      | feature wrapper => exact induction wrapper.child
      | composite composite =>
          exact conserved.composite forest forest handle composite none here
            (conserved.refl forest) (makes_none forest _ _)

theorem exhaust (handle : Handle) :
    Conserves keeps (modify fun forest => forest.exhaust handle) :=
  conserved.exhaustWithin _ handle

/-- Every call on a cursor conserves the relation. -/
theorem call (handle : Handle) (call : Call) : Conserves keeps (call.run handle) := by
  cases call with
  | exhaust => exact conserved.exhaust handle
  | move motion =>
      cases motion with
      | moveTo target => exact conserved.moveTo handle target
      | movePast doc =>
          change Conserves keeps (movePast handle doc)
          unfold movePast
          cases doc.next? with
          | none => exact conserved.exhaust handle
          | some next => exact conserved.moveTo handle next

end Conserved

end Steps

end Forest

end Concordance
