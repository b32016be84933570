import Concordance.Proofs.Step

/-!
# Two steps side by side

Two steps that run in different states are compared by what they give and by how the states
that they leave are related.
-/

namespace Concordance

namespace Step

variable {σ τ α β : Type} {state : σ} {other : τ}

/-- Two steps that succeed together with one result. -/
def Both (first : Step σ α) (second : Step τ α) (state : σ) (other : τ)
    (done : α → σ → τ → Prop) : Prop :=
  ∃ value after later, first state = .ok value after ∧ second other = .ok value later ∧
    done value after later

theorem Both.bind {first : Step σ α} {second : Step τ α} {next : α → Step σ β}
    {following : α → Step τ β} {done : α → σ → τ → Prop} {final : β → σ → τ → Prop}
    (begun : first.Both second state other done)
    (continued : ∀ value after later, done value after later →
      (next value).Both (following value) after later final) :
    (first >>= next).Both (second >>= following) state other final := by
  obtain ⟨value, after, later, run, ran, isDone⟩ := begun
  obtain ⟨result, final, last, rest, others, isFinal⟩ := continued value after later isDone
  exact ⟨result, final, last, (bind_ok next run).trans rest, (bind_ok following ran).trans others,
    isFinal⟩

theorem both_done {first : Step σ α} {second : Step τ α} {value : α} {after : σ} {later : τ}
    {done : α → σ → τ → Prop} (run : first state = .ok value after)
    (ran : second other = .ok value later) (isDone : done value after later) :
    first.Both second state other done :=
  ⟨value, after, later, run, ran, isDone⟩

theorem both_behind {γ : Type} {first : Step σ α} {second : Step τ γ} {next : α → Step σ β}
    {following : γ → Step τ β} {final : β → σ → τ → Prop} {value : α} {rival : γ} {after : σ}
    {later : τ} (run : first state = .ok value after) (ran : second other = .ok rival later)
    (rest : (next value).Both (following rival) after later final) :
    (first >>= next).Both (second >>= following) state other final := by
  rwa [Both, bind_ok next run, bind_ok following ran]

/-- Two steps that end alike, also where they fail. -/
def Echoes (first : Step σ α) (second : Step τ α) (state : σ) (other : τ)
    (alike : σ → τ → Prop) : Prop :=
  match first state, second other with
  | .ok value after, .ok rival later => value = rival ∧ alike after later
  | .error cause after, .error rival later => cause = rival ∧ alike after later
  | _, _ => False

variable {first : Step σ α} {second : Step τ α} {alike : σ → τ → Prop}

theorem echoes_ok {value : α} {after : σ} {later : τ} (run : first state = .ok value after)
    (ran : second other = .ok value later) (same : alike after later) :
    first.Echoes second state other alike := by
  rw [Echoes, run, ran]
  exact ⟨rfl, same⟩

theorem echoes_error {cause : Error} {after : σ} {later : τ}
    (run : first state = .error cause after)
    (ran : second other = .error cause later) (same : alike after later) :
    first.Echoes second state other alike := by
  rw [Echoes, run, ran]
  exact ⟨rfl, same⟩

theorem Echoes.of_ok (echoes : first.Echoes second state other alike) {value rival : α} {after : σ}
    {later : τ} (run : first state = .ok value after) (ran : second other = .ok rival later) :
    value = rival ∧ alike after later := by
  rwa [Echoes, run, ran] at echoes

theorem Echoes.congr {begun : Step σ α} {rival : Step τ α}
    (echoes : begun.Echoes rival state other alike) (same : first state = begun state)
    (sameRival : second other = rival other) : first.Echoes second state other alike := by
  rwa [Echoes, same, sameRival]

theorem Echoes.endState (echoes : first.Echoes second state other alike) :
    alike (first.endState state) (second.endState other) := by
  unfold Echoes at echoes
  unfold Step.endState
  cases run : first state <;> cases ran : second other <;> rw [run, ran] at echoes <;>
    first | exact echoes.2 | exact echoes.elim

theorem Echoes.evaluate_eq (echoes : first.Echoes second state other alike) :
    first.evaluate state = second.evaluate other := by
  unfold Echoes at echoes
  unfold evaluate
  cases run : first state <;> cases ran : second other <;> rw [run, ran] at echoes
  · exact congrArg Except.ok echoes.1
  · exact echoes.elim
  · exact echoes.elim
  · exact congrArg Except.error echoes.1

theorem Echoes.imp {resembles : σ → τ → Prop} (echoes : first.Echoes second state other alike)
    (ends : alike (first.endState state) (second.endState other) →
      resembles (first.endState state) (second.endState other)) :
    first.Echoes second state other resembles := by
  have same := ends echoes.endState
  unfold Echoes at echoes ⊢
  unfold Step.endState at same
  cases run : first state <;> cases ran : second other <;> rw [run, ran] at echoes same <;>
    first | exact ⟨echoes.1, same⟩ | exact echoes.elim


/-! ## Outcomes of two types -/

section Agrees

variable {γ δ : Type}

/-- Two steps that succeed together or fail for the same cause. -/
def Agrees (first : Step σ α) (second : Step τ γ) (state : σ) (other : τ)
    (alike : α → σ → γ → τ → Prop) : Prop :=
  match first state, second other with
  | .ok value after, .ok rival later => alike value after rival later
  | .error cause _, .error rival _ => cause = rival
  | _, _ => False

variable {first : Step σ α} {second : Step τ γ} {alike : α → σ → γ → τ → Prop}

theorem agrees_ok {value : α} {after : σ} {rival : γ} {later : τ}
    (run : first state = .ok value after) (ran : second other = .ok rival later)
    (same : alike value after rival later) : first.Agrees second state other alike := by
  rwa [Agrees, run, ran]

theorem agrees_error {cause : Error} {after : σ} {later : τ}
    (run : first state = .error cause after)
    (ran : second other = .error cause later) : first.Agrees second state other alike := by
  rw [Agrees, run, ran]

theorem Agrees.bind {next : α → Step σ β} {following : γ → Step τ δ}
    {final : β → σ → δ → τ → Prop} (begun : first.Agrees second state other alike)
    (continued : ∀ value after rival later, first state = .ok value after →
      second other = .ok rival later → alike value after rival later →
      (next value).Agrees (following rival) after later final) :
    (first >>= next).Agrees (second >>= following) state other final := by
  unfold Agrees at begun
  rw [Agrees, bind_run, bind_run]
  cases run : first state <;> cases ran : second other <;> rw [run, ran] at begun
  · exact continued _ _ _ _ run ran begun
  · exact begun.elim
  · exact begun.elim
  · exact begun

theorem agrees_behind {next : α → Step σ β} {following : γ → Step τ δ}
    {final : β → σ → δ → τ → Prop} {value : α} {after : σ} {rival : γ} {later : τ}
    (run : first state = .ok value after) (ran : second other = .ok rival later)
    (rest : (next value).Agrees (following rival) after later final) :
    (first >>= next).Agrees (second >>= following) state other final := by
  rwa [Agrees, bind_ok next run, bind_ok following ran]

/-- A check that ends alike on both sides stops both, or lets both go on. -/
theorem agrees_checked {result rival : Except Error α} (same : result = rival)
    {next : α → Step σ β} {following : α → Step τ δ} {final : β → σ → δ → τ → Prop}
    (rest : ∀ value, result = .ok value →
      (next value).Agrees (following value) state other final) :
    (ofExcept result >>= next).Agrees (ofExcept rival >>= following) state other final := by
  subst same
  cases result with
  | ok value => exact rest value rfl
  | error cause => exact agrees_error rfl rfl

theorem agrees_beside {following : γ → Step τ δ} {final : α → σ → δ → τ → Prop} {rival : γ}
    {later : τ} (ran : second other = .ok rival later)
    (rest : first.Agrees (following rival) state later final) :
    first.Agrees (second >>= following) state other final := by
  rwa [Agrees, bind_ok following ran]

theorem Agrees.imp {final : α → σ → γ → τ → Prop}
    (agrees : first.Agrees second state other alike)
    (ends : ∀ value after rival later, first state = .ok value after →
      second other = .ok rival later → alike value after rival later →
      final value after rival later) : first.Agrees second state other final := by
  unfold Agrees at agrees ⊢
  cases run : first state <;> cases ran : second other <;> rw [run, ran] at agrees
  · exact ends _ _ _ _ run ran agrees
  · exact agrees.elim
  · exact agrees.elim
  · exact agrees

theorem agrees_onPart {σ' τ' : Type} {part : σ' → σ} {put : σ' → σ → σ'} {partOther : τ' → τ}
    {putOther : τ' → τ → τ'} {whole : σ'} {wholeOther : τ'}
    (agrees : first.Agrees second (part whole) (partOther wholeOther) alike) :
    (onPart part put first).Agrees (onPart partOther putOther second) whole wholeOther
      fun value after rival later => ∃ rest restOther, after = put whole rest ∧
        later = putOther wholeOther restOther ∧ alike value rest rival restOther := by
  unfold Agrees at agrees
  unfold Agrees onPart
  cases run : first (part whole) <;> cases ran : second (partOther wholeOther) <;>
    rw [run, ran] at agrees
  · exact ⟨_, _, rfl, rfl, agrees⟩
  · exact agrees.elim
  · exact agrees.elim
  · exact agrees

/-- Where a step succeeds, one that agrees with it does too. -/
theorem Agrees.of_ok (agrees : first.Agrees second state other alike) {value : α} {after : σ}
    (run : first state = .ok value after) :
    ∃ rival later, second other = .ok rival later ∧ alike value after rival later := by
  unfold Agrees at agrees
  cases ran : second other with
  | ok rival later =>
      rw [run, ran] at agrees
      exact ⟨rival, later, rfl, agrees⟩
  | error cause later =>
      rw [run, ran] at agrees
      exact agrees.elim

end Agrees

/-! ## One step in the wake of another -/

/-- Wherever the first step succeeds, the second one does with the same value. -/
def Vouches (first : Step σ α) (second : Step τ α) (state : σ) (other : τ)
    (done : α → σ → τ → Prop) : Prop :=
  ∀ value after, first state = .ok value after →
    ∃ later, second other = .ok value later ∧ done value after later

section Vouches

variable {first : Step σ α} {second : Step τ α} {done : α → σ → τ → Prop}

theorem vouches_done {value : α} {after : σ} {later : τ} (run : first state = .ok value after)
    (ran : second other = .ok value later) (isDone : done value after later) :
    first.Vouches second state other done := by
  intro held ended same
  cases run.symm.trans same
  exact ⟨later, ran, isDone⟩

theorem vouches_failed {cause : Error} {after : σ} (run : first state = .error cause after) :
    first.Vouches second state other done := by
  intro _ _ impossible
  cases run.symm.trans impossible

theorem Vouches.bind {next : α → Step σ β} {following : α → Step τ β} {final : β → σ → τ → Prop}
    (begun : first.Vouches second state other done)
    (continued : ∀ value after later, done value after later →
      (next value).Vouches (following value) after later final) :
    (first >>= next).Vouches (second >>= following) state other final := by
  intro result ended run
  obtain ⟨value, after, before, rest⟩ := bind_eq_ok run
  obtain ⟨later, ran, isDone⟩ := begun value after before
  obtain ⟨last, others, isFinal⟩ := continued value after later isDone result ended rest
  exact ⟨last, (bind_ok following ran).trans others, isFinal⟩

theorem vouches_behind {γ δ : Type} {first : Step σ γ} {second : Step τ δ} {next : γ → Step σ β}
    {following : δ → Step τ β} {final : β → σ → τ → Prop} {value : γ} {rival : δ} {after : σ}
    {later : τ} (run : first state = .ok value after) (ran : second other = .ok rival later)
    (rest : (next value).Vouches (following rival) after later final) :
    (first >>= next).Vouches (second >>= following) state other final := by
  rwa [Vouches, bind_ok next run, bind_ok following ran]

/-- A part of the first step that the second one lacks. -/
theorem vouches_ahead {γ : Type} {begun : Step σ γ} {next : γ → Step σ α}
    (rest : ∀ value after, begun state = .ok value after →
      (next value).Vouches second after other done) :
    (begun >>= next).Vouches second state other done := by
  intro result ended run
  obtain ⟨value, after, before, later⟩ := bind_eq_ok run
  exact rest value after before result ended later

/-- A step on a part that two states have in common. -/
theorem vouches_onPart {ρ : Type} {part : σ → ρ} {put : σ → ρ → σ} {partOther : τ → ρ}
    {putOther : τ → ρ → τ} {step : Step ρ α} (same : part state = partOther other)
    (isDone : ∀ value rest, done value (put state rest) (putOther other rest)) :
    (onPart part put step).Vouches (onPart partOther putOther step) state other done := by
  intro value ended run
  obtain ⟨rest, ran, rfl⟩ := onPart_eq_ok run
  exact ⟨_, onPart_ok (same ▸ ran), isDone value rest⟩

end Vouches

end Step

end Concordance
