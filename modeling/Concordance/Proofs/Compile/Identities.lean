import Concordance.Proofs.Compile.Building
import Concordance.Proofs.Cursor.Identities

/-!
# Identities given out

Every node that is compiled is given an identity of its own, also if it is refused in the end.
-/

namespace Concordance

namespace Forest

/-- A cursor was built for a node.  It either has the identity that the node was given, and then
it is a new one, or it has none, and then there are no new identities at all. -/
inductive Issued (estimator : EstimatorId) (before : Forest) (handle : Handle) (after : Forest) :
    Prop where
  | plain (kept : Namesakes before after) (inside : handle.index < after.cursors.size)
      (bare : after.identity? handle = none)
  | bearing (size : before.cursors.size ≤ after.cursors.size)
      (behind : before.cursors.size ≤ handle.index)
      (bears : after.identity? handle = some estimator)
      (others : ∀ other, other ≠ handle → after.identity? other = before.identity? other)

theorem Issued.behind {estimator : EstimatorId} {before middle after : Forest} {handle : Handle}
    (kept : Namesakes before middle) (issued : Issued estimator middle handle after) :
    Issued estimator before handle after := by
  cases issued with
  | plain later inside bare => exact .plain (kept.trans later) inside bare
  | bearing size behind bears others =>
      exact .bearing (kept.size.trans size) (kept.size.trans behind) bears fun other different =>
        (others other different).trans (kept.same other)

/-- A way to build a cursor gives no other identity than the one it is handed out. -/
structure Issues (estimator : EstimatorId) (step : Step Forest Handle) (forest : Forest) :
    Prop where
  built : ∀ handle after, step forest = .ok handle after → Issued estimator forest handle after
  refused : ∀ cause after, step forest = .error cause after → Namesakes forest after

section Issues

variable {estimator : EstimatorId} {forest : Forest}

theorem Discreet.issues {α : Type} {first : Step Forest α} {next : α → Step Forest Handle}
    (begun : Discreet first) (later : ∀ value middle, Issues estimator (next value) middle) :
    Issues estimator (first >>= next) forest := by
  constructor
  · intro handle after run
    obtain ⟨value, middle, begins, ends⟩ := Step.bind_eq_ok run
    exact ((later value middle).built handle after ends).behind (Conserves.of_ok begun begins)
  · intro cause after run
    rcases Step.bind_eq_error run with failed | ⟨value, middle, begins, failed⟩
    · exact Conserves.of_error begun failed
    · exact (Conserves.of_ok begun begins).trans ((later value middle).refused cause after failed)

theorem issues_throw (cause : Error) : Issues estimator (throw cause) forest :=
  ⟨fun _ _ impossible => (nomatch impossible), fun _ _ run => by cases run; exact .refl forest⟩

theorem identity?_push_ne {cursor : Cursor} {other : Handle}
    (different : other.index ≠ forest.cursors.size) :
    (forest.push cursor).identity? other = forest.identity? other :=
  congrArg Cursor.estimator? (cursor_push_ne different cursor)

/-- A cursor is added that has the identity of its node or none. -/
theorem issues_add {cursor : Cursor}
    (named : cursor.estimator? = none ∨ cursor.estimator? = some estimator) :
    Issues estimator (add cursor) forest := by
  refine ⟨fun handle after run => ?_, fun _ _ impossible => (nomatch impossible)⟩
  cases run
  have here : (forest.push cursor).identity? ⟨forest.cursors.size⟩ = cursor.estimator? :=
    congrArg Cursor.estimator? (cursor_push_self forest cursor)
  have grows := lt_size_push forest cursor
  rcases named with bare | bears
  · refine .plain ⟨Nat.le_of_lt grows, fun other => ?_⟩ grows (here.trans bare)
    by_cases same : other.index = forest.cursors.size
    · rw [identity?_of_size_le (Nat.le_of_eq same.symm), ← bare, ← here, ← same]
      rfl
    · exact identity?_push_ne same
  · refine .bearing (Nat.le_of_lt grows) (Nat.le_refl _) (here.trans bears) ?_
    intro other different
    exact identity?_push_ne fun same => different (by cases other; cases same; rfl)

theorem addComposite_issues (key : String) (combination : Combination) (children : List Handle) :
    Issues estimator (addComposite key combination children) forest := by
  refine discreet_get.issues fun known _ => (discreet_ofExcept _).issues fun _ _ => ?_
  refine (seek_discreet combination children DocId.zero).issues fun _ _ => ?_
  exact issues_add (.inl rfl)

theorem addFeature_issues (key : String) (children : List Handle) (scorer : String) :
    Issues estimator (addFeature key children estimator scorer) forest := by
  unfold addFeature
  split
  · refine discreet_get.issues fun known _ => (discreet_ofExcept _).issues fun _ _ => ?_
    exact issues_add (.inr rfl)
  · exact issues_throw _

theorem addSource?_issues (index : Index) (key : Key) (withExtents : Bool) (name : String) :
    Issues estimator (do
      match ← addSource? index key withExtents with
      | some handle => pure handle
      | none => add (.null name)) forest := by
  unfold addSource? addLeaf
  simp only [bind_assoc]
  refine (discreet_ofExcept _).issues fun block? _ => ?_
  cases block? with
  | none => exact issues_add (.inl rfl)
  | some block =>
      simp only [bind_assoc]
      refine (discreet_ofExcept _).issues fun leaf _ => ?_
      exact issues_add (.inl rfl)

end Issues

end Forest

/-! ## Implementations -/

/-- Implementations from outside use the identity that they are handed out, and no other. -/
def Registry.Issuing (registry : Registry) : Prop :=
  ∀ operator build, registry.resolve? operator = some (.custom build) →
    ∀ request forest, Forest.Issues request.estimator (build request) forest

theorem Registry.BuiltIn.issuing {registry : Registry} (builtIn : registry.BuiltIn) :
    registry.Issuing :=
  fun operator build resolved => absurd rfl (builtIn operator _ resolved build)

namespace Forest

variable {request : BuildRequest} {forest : Forest}

theorem implementation_issues {implementation : Implementation}
    (custom : ∀ build, implementation = .custom build →
      ∀ request forest, Issues request.estimator (build request) forest) :
    Issues request.estimator (implementation.build request) forest := by
  cases implementation with
  | source withExtents =>
      exact (discreet_ofExcept _).issues fun key _ =>
        addSource?_issues request.index (Key.ofText key) withExtents key
  | window order =>
      exact (discreet_ofExcept _).issues fun width _ =>
        addComposite_issues request.signature (.window order width) request.children
  | synonym => exact addComposite_issues request.signature .synonym request.children
  | conjunction => exact addComposite_issues request.signature .conjunction request.children
  | union => exact addComposite_issues request.signature .union request.children
  | combine => exact addComposite_issues request.signature .combine request.children
  | feature => exact addFeature_issues request.signature request.children request.scorer
  | null => exact issues_add (.inl rfl)
  | custom build => exact custom build rfl request forest

theorem registry_issues {registry : Registry} (issuing : registry.Issuing) :
    Issues request.estimator (registry.build request) forest := by
  cases resolved : registry.resolve? request.node.operator with
  | none =>
      obtain ⟨_, unknown, _⟩ := Registry.build_unresolved resolved forest
      constructor
      · intro handle after run
        rw [unknown] at run
        cases run
      · intro cause after run
        rw [unknown] at run
        cases run
        exact .refl forest
  | some implementation =>
      rw [Registry.build_resolved resolved]
      exact implementation_issues fun build custom => issuing _ build (custom ▸ resolved)

end Forest

end Concordance
