import Concordance.Step

/-!
# Running steps

A step is opened by what its parts do.  The lemmas below run a sequence of
steps from a given state, one part at a time.
-/

namespace Concordance

namespace Step

variable {σ τ α β : Type} {state after : σ}

@[simp]
theorem pure_run (value : α) (state : σ) :
    (pure value : Step σ α) state = .ok value state := rfl

@[simp]
theorem get_run (state : σ) : (get : Step σ σ) state = .ok state state := rfl

@[simp]
theorem set_run (state after : σ) : (set after : Step σ PUnit) state = .ok ⟨⟩ after := rfl

@[simp]
theorem modify_run (change : σ → σ) (state : σ) :
    (modify change : Step σ PUnit) state = .ok ⟨⟩ (change state) := rfl

theorem bind_run (first : Step σ α) (next : α → Step σ β) (state : σ) :
    (first >>= next) state =
      match first state with
      | .ok value after => next value after
      | .error cause after => .error cause after := by
  change EStateM.bind first next state = _
  unfold EStateM.bind
  cases first state <;> rfl

theorem bind_ok {first : Step σ α} {value : α} (next : α → Step σ β)
    (run : first state = .ok value after) :
    (first >>= next) state = next value after := by
  rw [bind_run, run]

theorem bind_error {first : Step σ α} {cause : Error} (next : α → Step σ β)
    (run : first state = .error cause after) : (first >>= next) state = .error cause after := by
  rw [bind_run, run]

theorem ok_bind {ε : Type} (value : α) (next : α → Except ε β) :
    ((Except.ok value : Except ε α) >>= next) = next value := rfl

theorem ok_of_bind {ε : Type} {first : Except ε α} {next : α → Except ε β} {result : β}
    (run : (first >>= next) = .ok result) :
    ∃ value, first = .ok value ∧ next value = .ok result := by
  cases first with
  | ok value => exact ⟨value, rfl, run⟩
  | error cause => cases run

theorem ofExcept_run {result : Except Error α} {value : α} (known : result = .ok value)
    (state : σ) : ofExcept result state = .ok value state := by
  rw [known]
  rfl

theorem ofExcept_error {result : Except Error α} {cause : Error} (known : result = .error cause)
    (state : σ) : (ofExcept result : Step σ α) state = .error cause state := by
  rw [known]
  rfl

theorem ofExcept_eq_ok {result : Except Error α} {value : α}
    (run : ofExcept result state = .ok value after) : result = .ok value ∧ after = state := by
  cases result with
  | ok held =>
      cases run
      exact ⟨rfl, rfl⟩
  | error cause => cases run

theorem onPart_ok {part : σ → τ} {put : σ → τ → σ} {step : Step τ α} {value : α} {rest : τ}
    (run : step (part state) = .ok value rest) :
    onPart part put step state = .ok value (put state rest) := by
  simp only [onPart, run]

theorem onPart_error {part : σ → τ} {put : σ → τ → σ} {step : Step τ α} {cause : Error} {rest : τ}
    (run : step (part state) = .error cause rest) :
    onPart part put step state = .error cause (put state rest) := by
  simp only [onPart, run]

theorem evaluate_eq_ok {step : Step σ α} {value : α} (run : step.evaluate state = .ok value) :
    ∃ after, step state = .ok value after := by
  unfold evaluate at run
  cases ran : step state with
  | ok found after =>
      rw [ran] at run
      cases run
      exact ⟨after, rfl⟩
  | error cause after =>
      rw [ran] at run
      cases run

theorem bind_eq_ok {first : Step σ α} {next : α → Step σ β} {result : β} {final : σ}
    (run : (first >>= next) state = .ok result final) :
    ∃ value middle, first state = .ok value middle ∧ next value middle = .ok result final := by
  rw [bind_run] at run
  cases begun : first state with
  | ok value middle =>
      rw [begun] at run
      exact ⟨value, middle, rfl, run⟩
  | error cause middle =>
      rw [begun] at run
      cases run

theorem bind_eq_error {first : Step σ α} {next : α → Step σ β} {cause : Error} {final : σ}
    (run : (first >>= next) state = .error cause final) :
    first state = .error cause final ∨
      ∃ value middle, first state = .ok value middle ∧ next value middle = .error cause final := by
  rw [bind_run] at run
  cases begun : first state with
  | ok value middle =>
      rw [begun] at run
      exact .inr ⟨value, middle, rfl, run⟩
  | error other middle =>
      rw [begun] at run
      cases run
      exact .inl rfl

theorem onPart_eq_ok {part : σ → τ} {put : σ → τ → σ} {step : Step τ α} {value : α}
    (run : onPart part put step state = .ok value after) :
    ∃ rest, step (part state) = .ok value rest ∧ after = put state rest := by
  unfold onPart at run
  cases inner : step (part state) with
  | ok held rest =>
      rw [inner] at run
      cases run
      exact ⟨rest, rfl, rfl⟩
  | error cause rest =>
      rw [inner] at run
      cases run

theorem evaluate_ok {step : Step σ α} {value : α} (run : step state = .ok value after) :
    step.evaluate state = .ok value := by
  simp only [evaluate, run]

/-- The state in which a step ends, also where it fails. -/
def endState (step : Step σ α) (state : σ) : σ :=
  match step state with
  | .ok _ after => after
  | .error _ after => after

theorem endState_ok {step : Step σ α} {value : α} (run : step state = .ok value after) :
    step.endState state = after := by
  simp only [endState, run]

theorem endState_error {step : Step σ α} {cause : Error} (run : step state = .error cause after) :
    step.endState state = after := by
  simp only [endState, run]

theorem endState_bind {first : Step σ α} {next : α → Step σ β} {value : α}
    (run : first state = .ok value after) :
    (first >>= next).endState state = (next value).endState after := by
  rw [endState, endState, bind_ok next run]

theorem endState_bind_pure {first : Step σ α} {next : α → β} :
    (first >>= fun value => pure (next value)).endState state = first.endState state := by
  unfold endState
  rw [bind_run]
  cases first state <;> rfl

theorem endState_onPart {part : σ → τ} {put : σ → τ → σ} {step : Step τ α} :
    (onPart part put step).endState state = put state (step.endState (part state)) := by
  unfold endState onPart
  cases step (part state) <;> rfl

/-- What two parts of a step preserve, the whole step preserves, wherever it ends. -/
theorem endState_trans (related : σ → σ → Prop)
    (trans : ∀ first second third, related first second → related second third →
      related first third)
    {first : Step σ α} {next : α → Step σ β} (begun : related state (first.endState state))
    (later : ∀ value middle, first state = .ok value middle →
      related middle ((next value).endState middle)) :
    related state ((first >>= next).endState state) := by
  cases run : first state with
  | ok value middle =>
      rw [endState_ok run] at begun
      rw [endState_bind run]
      exact trans _ _ _ begun (later value middle run)
  | error cause middle =>
      rw [endState_error run] at begun
      rwa [endState_error (bind_error next run)]

/-! ## Steps that may fail -/

/-- Whether a step succeeds is settled by a condition, and both of its ends are described. -/
def Settles (step : Step σ α) (state : σ) (condition : Prop) (done : α → σ → Prop)
    (failed : σ → Prop) : Prop :=
  match step state with
  | .ok value after => condition ∧ done value after
  | .error _ after => ¬condition ∧ failed after

section Settles

variable {step : Step σ α} {condition : Prop} {done : α → σ → Prop} {failed : σ → Prop}

theorem settles_done {value : α} (run : step state = .ok value after) (holds : condition)
    (isDone : done value after) : step.Settles state condition done failed := by
  rw [Settles, run]
  exact ⟨holds, isDone⟩

theorem settles_failed {cause : Error} (run : step state = .error cause after)
    (fails : ¬condition) (isFailed : failed after) :
    step.Settles state condition done failed := by
  rw [Settles, run]
  exact ⟨fails, isFailed⟩

theorem Settles.of_ok (settles : step.Settles state condition done failed) {value : α}
    (run : step state = .ok value after) : condition ∧ done value after := by
  rwa [Settles, run] at settles

theorem Settles.of_error (settles : step.Settles state condition done failed) {cause : Error}
    (run : step state = .error cause after) : ¬condition ∧ failed after := by
  rwa [Settles, run] at settles

theorem Settles.exists_ok (settles : step.Settles state condition done failed)
    (holds : condition) : ∃ value after, step state = .ok value after ∧ done value after := by
  cases run : step state with
  | ok value after => exact ⟨value, after, rfl, (settles.of_ok run).2⟩
  | error cause after => exact absurd holds (settles.of_error run).1

/-- One step after the other succeeds if both do. -/
theorem Settles.bind {next : α → Step σ β} {other : Prop} {final : β → σ → Prop}
    (begun : step.Settles state condition done failed)
    (later : ∀ value middle, step state = .ok value middle → done value middle →
      (next value).Settles middle other final failed) :
    (step >>= next).Settles state (condition ∧ other) final failed := by
  rw [Settles, bind_run]
  cases run : step state with
  | error cause middle =>
      obtain ⟨fails, isFailed⟩ := begun.of_error run
      exact ⟨fun both => fails both.1, isFailed⟩
  | ok value middle =>
      obtain ⟨holds, isDone⟩ := begun.of_ok run
      have settles := later value middle run isDone
      dsimp only
      cases ran : next value middle with
      | error cause after =>
          obtain ⟨fails, isFailed⟩ := settles.of_error ran
          exact ⟨fun both => fails both.2, isFailed⟩
      | ok result after =>
          obtain ⟨alsoHolds, isFinal⟩ := settles.of_ok ran
          exact ⟨⟨holds, alsoHolds⟩, isFinal⟩

theorem Settles.behind {next : α → Step σ β} {other : Prop} {final : β → σ → Prop} {value : α}
    (run : step state = .ok value after) (later : (next value).Settles after other final failed) :
    (step >>= next).Settles state other final failed := by
  rwa [Settles, bind_ok next run]

/-- A step is settled by what its first part settles if the rest always succeeds. -/
theorem Settles.before {next : α → Step σ β} {final : β → σ → Prop}
    (begun : step.Settles state condition done failed)
    (later : ∀ value middle, done value middle →
      ∃ result after, next value middle = .ok result after ∧ final result after) :
    (step >>= next).Settles state condition final failed := by
  rw [← and_true condition]
  apply begun.bind
  intro value middle _ isDone
  obtain ⟨result, after, run, isFinal⟩ := later value middle isDone
  exact settles_done run trivial isFinal

theorem Settles.imp {final : α → σ → Prop} {left : σ → Prop}
    (settles : step.Settles state condition done failed)
    (isFinal : ∀ value after, done value after → final value after)
    (isLeft : ∀ after, failed after → left after) :
    step.Settles state condition final left := by
  cases run : step state with
  | ok value after =>
      obtain ⟨holds, isDone⟩ := settles.of_ok run
      exact settles_done run holds (isFinal value after isDone)
  | error cause after =>
      obtain ⟨fails, isFailed⟩ := settles.of_error run
      exact settles_failed run fails (isLeft after isFailed)

end Settles

/-- What holds at either end of a step: of its value and the state that it leaves, or of the
cause of its failure. -/
def Ends (step : Step σ α) (state : σ) (done : α → σ → Prop) (failed : Error → Prop) : Prop :=
  match step state with
  | .ok value after => done value after
  | .error cause _ => failed cause

section Ends

variable {step : Step σ α} {done : α → σ → Prop} {failed : Error → Prop}

theorem ends_done {value : α} (run : step state = .ok value after) (isDone : done value after) :
    step.Ends state done failed := by
  rwa [Ends, run]

theorem ends_failed {cause : Error} (run : step state = .error cause after)
    (isFailed : failed cause) : step.Ends state done failed := by
  rwa [Ends, run]

theorem Ends.of_ok (ends : step.Ends state done failed) {value : α}
    (run : step state = .ok value after) : done value after := by
  rwa [Ends, run] at ends

theorem Ends.of_error (ends : step.Ends state done failed) {cause : Error}
    (run : step state = .error cause after) : failed cause := by
  rwa [Ends, run] at ends

theorem Ends.imp {final : α → σ → Prop} {left : Error → Prop} (ends : step.Ends state done failed)
    (isFinal : ∀ value after, done value after → final value after)
    (isLeft : ∀ cause, failed cause → left cause) : step.Ends state final left := by
  cases run : step state with
  | ok value after => exact ends_done run (isFinal value after (ends.of_ok run))
  | error cause after => exact ends_failed run (isLeft cause (ends.of_error run))

/-- A step that cannot fail succeeds. -/
theorem Ends.exists_ok (ends : step.Ends state done failed) (sure : ∀ cause, ¬failed cause) :
    ∃ value after, step state = .ok value after ∧ done value after := by
  cases run : step state with
  | ok value after => exact ⟨value, after, rfl, ends.of_ok run⟩
  | error cause after => exact absurd (ends.of_error run) (sure cause)

/-- One step after the other ends as the second does behind the first. -/
theorem Ends.bind {next : α → Step σ β} {final : β → σ → Prop}
    (begun : step.Ends state done failed)
    (later : ∀ value middle, done value middle → (next value).Ends middle final failed) :
    (step >>= next).Ends state final failed := by
  rw [Ends, bind_run]
  cases run : step state with
  | ok value middle => exact later value middle (begun.of_ok run)
  | error cause middle => exact begun.of_error run

theorem Ends.behind {next : α → Step σ β} {final : β → σ → Prop} {value : α}
    (run : step state = .ok value after) (later : (next value).Ends after final failed) :
    (step >>= next).Ends state final failed := by
  rwa [Ends, bind_ok next run]

theorem ends_onPart {part : σ → τ} {put : σ → τ → σ} {step : Step τ α} {done : α → τ → Prop}
    {failed : Error → Prop} (ends : step.Ends (part state) done failed) :
    (onPart part put step).Ends state
      (fun value after => ∃ rest, done value rest ∧ after = put state rest) failed := by
  cases run : step (part state) with
  | ok value rest => exact ends_done (onPart_ok run) ⟨rest, ends.of_ok run, rfl⟩
  | error cause rest => exact ends_failed (onPart_error run) (ends.of_error run)

end Ends

/-- What holds of the state that a step leaves if it fails. -/
def Spares (step : Step σ α) (state : σ) (left : σ → Prop) : Prop :=
  match step state with
  | .ok _ _ => True
  | .error _ after => left after

section Spares

variable {step : Step σ α} {left : σ → Prop}

theorem spares_done {value : α} (run : step state = .ok value after) : step.Spares state left := by
  rw [Spares, run]
  trivial

theorem spares_failed {cause : Error} (run : step state = .error cause after)
    (isLeft : left after) : step.Spares state left := by
  rwa [Spares, run]

theorem Spares.of_error (spares : step.Spares state left) {cause : Error}
    (run : step state = .error cause after) : left after := by
  rwa [Spares, run] at spares

theorem Spares.imp {other : σ → Prop} (spares : step.Spares state left)
    (weaker : ∀ after, left after → other after) : step.Spares state other := by
  cases run : step state with
  | ok value after => exact spares_done run
  | error cause after => exact spares_failed run (weaker after (spares.of_error run))

theorem Spares.bind {next : α → Step σ β} (begun : step.Spares state left)
    (later : ∀ value middle, step state = .ok value middle → (next value).Spares middle left) :
    (step >>= next).Spares state left := by
  rw [Spares, bind_run]
  cases run : step state with
  | ok value middle => exact later value middle run
  | error cause middle => exact begun.of_error run

theorem Spares.behind {next : α → Step σ β} {value : α} (run : step state = .ok value after)
    (later : (next value).Spares after left) : (step >>= next).Spares state left := by
  rwa [Spares, bind_ok next run]

/-- A check leaves the state as it was. -/
theorem Spares.checked {result : Except Error α} {next : α → Step σ β} (unchanged : left state)
    (later : ∀ value, result = .ok value → (next value).Spares state left) :
    (ofExcept result >>= next).Spares state left := by
  cases result with
  | ok value => exact later value rfl
  | error cause => exact unchanged

theorem spares_onPart {part : σ → τ} {put : σ → τ → σ} {step : Step τ α} {left : τ → Prop}
    (spares : step.Spares (part state) left) :
    (onPart part put step).Spares state
      fun after => ∃ rest, left rest ∧ after = put state rest := by
  cases run : step (part state) with
  | ok value rest => exact spares_done (onPart_ok run)
  | error cause rest => exact spares_failed (onPart_error run) ⟨rest, spares.of_error run, rfl⟩

end Spares

/-- Reading each member of a list that can be read. -/
theorem mapM_ok {read : α → Except Error β} {view : α → β} {members : List α}
    (reads : ∀ member ∈ members, read member = .ok (view member)) :
    members.mapM read = .ok (members.map view) := by
  induction members with
  | nil => rfl
  | cons first members induction =>
      obtain ⟨here, later⟩ := List.forall_mem_cons.mp reads
      rw [List.mapM_cons, here, induction later]
      rfl

/-- What a member of a list reads is among what the list reads. -/
theorem mem_of_mapM {read : α → Except Error β} {members : List α} {values : List β}
    (run : members.mapM read = .ok values) {member : α} (inside : member ∈ members) {value : β}
    (known : read member = .ok value) : value ∈ values := by
  induction members generalizing values with
  | nil => cases inside
  | cons first members induction =>
      rw [List.mapM_cons] at run
      obtain ⟨head, same, run⟩ := ok_of_bind run
      obtain ⟨tail, rest, run⟩ := ok_of_bind run
      cases run
      rcases List.mem_cons.mp inside with rfl | later
      · rw [known] at same
        cases same
        exact List.mem_cons_self
      · exact List.mem_cons_of_mem _ (induction rest later)

/-- What a list reads is what its members read. -/
theorem exists_of_mem_mapM {read : α → Except Error β} {members : List α} {values : List β}
    (run : members.mapM read = .ok values) {value : β} (inside : value ∈ values) :
    ∃ member ∈ members, read member = .ok value := by
  induction members generalizing values with
  | nil =>
      cases run
      cases inside
  | cons first members induction =>
      rw [List.mapM_cons] at run
      obtain ⟨head, here, run⟩ := ok_of_bind run
      obtain ⟨tail, rest, run⟩ := ok_of_bind run
      cases run
      rcases List.mem_cons.mp inside with rfl | later
      · exact ⟨first, List.mem_cons_self, here⟩
      · obtain ⟨member, among, known⟩ := induction rest later
        exact ⟨member, List.mem_cons_of_mem _ among, known⟩

end Step

end Concordance
