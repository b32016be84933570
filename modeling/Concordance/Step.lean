import Concordance.Error

/-!
# Steps

A step reads and changes a state and may fail.  A step that fails keeps the
changes it made before the failure, so that what is left behind is as definite
as what a success leaves.
-/

namespace Concordance

/-- A computation over a state of type `σ` that may fail. -/
abbrev Step (σ : Type) := EStateM Error σ

namespace Step

variable {σ τ α : Type}

/-- A result that needs no state. -/
def ofExcept : Except Error α → Step σ α
  | .ok value => pure value
  | .error cause => throw cause

/-- Run a step on a part of the state. -/
@[inline] def onPart (part : σ → τ) (put : σ → τ → σ) (step : Step τ α) : Step σ α :=
  fun state =>
    match step (part state) with
    | .ok value after => .ok value (put state after)
    | .error cause after => .error cause (put state after)

/-- Run a step from a state and forget where it ends. -/
def evaluate (step : Step σ α) (state : σ) : Except Error α :=
  match step state with
  | .ok value _ => .ok value
  | .error cause _ => .error cause

end Step

end Concordance
