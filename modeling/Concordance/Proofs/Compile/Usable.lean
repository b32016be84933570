import Concordance.Proofs.Compile.Planting
import Concordance.Proofs.Compile.Seeding
import Concordance.Proofs.Cursor.Usable

/-!
# Building cursors that can be searched

Over the index of a writer every cursor that is built shows extents that a parent can search, and
those that were there before still do, also where a tree is refused.
-/

namespace Concordance

/-! ## Building one cursor -/

namespace Forest

theorem Usable.push {forest : Forest} (usable : forest.Usable) {cursor : Cursor}
    (fits : cursor.Usable) : (forest.push cursor).Usable := by
  intro other
  by_cases last : other.index = forest.cursors.size
  · cases other
    subst last
    rw [cursor_push_self]
    exact fits
  · rw [cursor_push_ne last]
    exact usable other

theorem add_staysUsable {cursor : Cursor} (fits : cursor.Usable) :
    Conserves StaysUsable (add cursor) :=
  fun _ usable => usable.push fits

/-- A combination is added with what it finds over its children. -/
theorem addComposite_staysUsable (key : String) (combination : Combination)
    (children : List Handle) :
    Conserves StaysUsable (addComposite key combination children) := by
  have conserved := StaysUsable.conserved
  refine conserved.bind conserved.get fun _ => conserved.checked fun _ _ forest => ?_
  refine Step.endState_trans StaysUsable conserved.trans
    (conserved.seek conserved.moveTo combination children DocId.zero forest) ?_
  intro first middle sought usable
  exact usable.push (@Usable.makes middle usable ⟨key, combination, children, first⟩ first
    (seek_makes sought))

theorem addFeature_staysUsable (key : String) (children : List Handle)
    (estimator : EstimatorId) (scorer : String) :
    Conserves StaysUsable (addFeature key children estimator scorer) := by
  have conserved := StaysUsable.conserved
  unfold addFeature
  split
  · exact conserved.bind conserved.get fun _ => conserved.checked fun _ _ =>
      add_staysUsable trivial
  · exact conserved.throw _

/-- A leaf is added over the block of a writer. -/
theorem addSource?_staysUsable {index : Index} {breaks : Error → Prop}
    (supplies : index.Supplies .stored breaks) (key : Key) (withExtents : Bool) :
    Conserves StaysUsable (addSource? index key withExtents) := by
  have conserved := StaysUsable.conserved
  refine conserved.checked fun block? held => ?_
  cases block? with
  | none => exact conserved.pure none
  | some block =>
      refine conserved.bind (conserved.checked fun leaf opened => ?_) fun _ => conserved.pure _
      rcases supplies.opens key block withExtents held with
        ⟨_, same, stored, _⟩ | ⟨_, refused, _⟩
      · rw [opened] at same
        cases same
        exact add_staysUsable ⟨0, stored⟩
      · rw [opened] at refused
        cases refused

/-- Every implementation of the library builds cursors that can be searched. -/
theorem implementation_staysUsable {implementation : Implementation} {request : BuildRequest}
    {breaks : Error → Prop} (supplies : request.index.Supplies .stored breaks)
    (library : ∀ build, implementation ≠ .custom build) :
    Conserves StaysUsable (implementation.build request) := by
  have conserved := StaysUsable.conserved
  cases implementation with
  | source withExtents =>
      refine conserved.checked fun key _ =>
        conserved.bind (addSource?_staysUsable supplies (Key.ofText key) withExtents) ?_
      rintro (_ | handle)
      · exact add_staysUsable trivial
      · exact conserved.pure handle
  | window order => exact conserved.checked fun _ _ => addComposite_staysUsable _ _ _
  | synonym => exact addComposite_staysUsable _ .synonym _
  | conjunction => exact addComposite_staysUsable _ .conjunction _
  | union => exact addComposite_staysUsable _ .union _
  | combine => exact addComposite_staysUsable _ .combine _
  | feature => exact addFeature_staysUsable _ _ _ _
  | null => exact add_staysUsable trivial
  | custom build => exact absurd rfl (library build)

theorem registry_staysUsable {registry : Registry} (builtIn : registry.BuiltIn)
    {request : BuildRequest} {breaks : Error → Prop}
    (supplies : request.index.Supplies .stored breaks) :
    Conserves StaysUsable (registry.build request) := by
  cases resolved : registry.resolve? request.node.operator with
  | none =>
      intro forest
      obtain ⟨_, refused, _⟩ := Registry.build_unresolved resolved forest
      exact (Step.endState_error refused).symm ▸ StaysUsable.conserved.refl forest
  | some implementation =>
      rw [Registry.build_resolved resolved]
      exact implementation_staysUsable supplies (builtIn _ _ resolved)

end Forest

/-! ## Compiling -/

/-- Benches whose forests are related. -/
def Workbench.Related (keeps : Forest → Forest → Prop) (before after : Workbench) : Prop :=
  keeps before.forest after.forest

namespace Compiler

variable {compiler : Compiler} {keeps : Forest → Forest → Prop}

theorem buildRoot_conserves (conserved : Forest.Conserved keeps)
    (each : ∀ request : BuildRequest, request.index = compiler.index →
      Forest.Conserves keeps (compiler.registry.build request))
    (node : Node) (handles : List Handle) (bench : Workbench) :
    Workbench.Related keeps bench ((compiler.buildRoot node handles).endState bench) := by
  unfold buildRoot
  rw [Step.endState_bind (allocate_run bench)]
  change Workbench.Related keeps ⟨bench.forest, bench.context.allocate.2⟩ _
  refine Step.endState_trans (Workbench.Related keeps) (fun _ _ _ => conserved.trans _ _ _) ?_ ?_
  · rw [Workbench.onForest, Step.endState_onPart]
    exact each _ rfl bench.forest
  · intro handle middle _
    obtain ⟨last, seeded⟩ := compiler.seedBound_run node.children handle middle
    rw [Step.endState_bind_pure, Step.endState_ok seeded, Workbench.Related,
      seedBound_eq_ok seeded]
    exact conserved.refl middle.forest

mutual

/-- What holds across the building of each cursor holds across the compiling of a tree, even
where it is refused. -/
theorem build_conserves (conserved : Forest.Conserved keeps)
    (each : ∀ request : BuildRequest, request.index = compiler.index →
      Forest.Conserves keeps (compiler.registry.build request)) :
    (node : Node) → (bench : Workbench) →
    Workbench.Related keeps bench ((compiler.build node).endState bench)
  | ⟨operator, parameters, children⟩, bench => by
    rw [build_eq]
    refine Step.endState_trans (Workbench.Related keeps) (fun _ _ _ => conserved.trans _ _ _)
      (buildChildren_conserves conserved each children [] bench) ?_
    exact fun handles middle _ => buildRoot_conserves conserved each _ handles middle

theorem buildChildren_conserves (conserved : Forest.Conserved keeps)
    (each : ∀ request : BuildRequest, request.index = compiler.index →
      Forest.Conserves keeps (compiler.registry.build request)) :
    (children : List Node) → (known : List (String × Handle)) → (bench : Workbench) →
    Workbench.Related keeps bench ((compiler.buildChildren known children).endState bench)
  | [], known, bench => conserved.refl bench.forest
  | child :: children, known, bench => by
    rw [buildChildren]
    cases if compiler.shareNodes then known.lookup child.text else none with
    | some handle =>
        dsimp only
        rw [Step.endState_bind_pure]
        exact buildChildren_conserves conserved each children known bench
    | none =>
        refine Step.endState_trans (Workbench.Related keeps) (fun _ _ _ => conserved.trans _ _ _)
          (build_conserves conserved each child bench) ?_
        intro handle middle _
        rw [Step.endState_bind_pure]
        exact buildChildren_conserves conserved each children _ middle

end

end Compiler

end Concordance
