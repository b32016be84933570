import Concordance.Cursor.Basic

/-!
# Score bounds

While a query is compiled every node gets an estimator identity, and the
bounds of estimators that are known beforehand are noted under theirs.
-/

namespace Concordance

/-- The least and the greatest value that an estimator starts from. -/
structure Bound where
  lower : Nat
  upper : Nat
  deriving DecidableEq

/-- Put a bound under an identity into entries that ascend. -/
def putBound (estimator : EstimatorId) (bound : Bound) :
    List (EstimatorId × Bound) → List (EstimatorId × Bound)
  | [] => [(estimator, bound)]
  | (other, held) :: entries =>
    if estimator.number < other.number then (estimator, bound) :: (other, held) :: entries
    else if estimator = other then (estimator, bound) :: entries
    else (other, held) :: putBound estimator bound entries

/-- What the cursors compiled for one query share: the identities given out,
and the bounds noted if they are wanted, in ascending order of identities. -/
structure ScoringContext where
  bounds : Option (List (EstimatorId × Bound))
  nextEstimator : Nat

namespace ScoringContext

/-- A context that keeps no bounds. -/
def new : ScoringContext := ⟨none, 0⟩

def withBounds : ScoringContext := ⟨some [], 0⟩

def supportsBounds (context : ScoringContext) : Bool := context.bounds.isSome

/-- The next identity, and the context that has given it out. -/
def allocate (context : ScoringContext) : EstimatorId × ScoringContext :=
  (⟨context.nextEstimator⟩, { context with nextEstimator := context.nextEstimator + 1 })

/-- Note the bound of an estimator if bounds are kept. -/
def setBound (context : ScoringContext) (estimator : EstimatorId) (bound : Bound) :
    ScoringContext :=
  { context with bounds := context.bounds.map (putBound estimator bound) }

/-- The bound noted for an estimator. -/
def bound? (context : ScoringContext) (estimator : EstimatorId) : Option Bound :=
  context.bounds.bind fun entries => entries.lookup estimator

end ScoringContext

end Concordance
