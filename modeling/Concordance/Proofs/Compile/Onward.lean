import Concordance.Proofs.Compile.Presence
import Concordance.Proofs.Compile.Upkeep
import Concordance.Proofs.Cursor.Declared

/-!
# Calls on a compiled query

The root of a query that was compiled over any index only goes on, whatever it is asked for,
as long as no block turns out to be broken.  Over an index of a writer none does, and then the
checks that were made when the cursors were built are enough: whatever a cursor is asked for
later on, it gives what it declares.
-/

namespace Concordance

namespace Compiler

variable {compiler : Compiler} {law : Leaf.Law} {breaks : Error → Prop} {node : Node}
  {arena kept : Arena} {bench after : Workbench} {handle : Handle}

/-- A tree whose text the arena does not hold is planted when it is compiled. -/
theorem compile_planted (supplies : compiler.index.Supplies law breaks)
    (builtIn : compiler.registry.BuiltIn)
    (fresh : compiler.shareNodes = true → arena.get? node.text = none)
    (compiled : compiler.compile node arena bench = .ok (handle, kept) after) :
    ∃ offer, Forest.Planted law offer bench.forest handle after.forest := by
  have plants := build_plants supplies builtIn node bench
  rw [compile_fresh fresh] at compiled
  cases built : compiler.build node bench with
  | error cause failed =>
      rw [built] at compiled
      cases compiled
  | ok root grown =>
      rw [built] at compiled
      cases compiled
      obtain ⟨offer, _, planted⟩ := plants.of_ok built
      exact ⟨offer, planted⟩

/-- Whatever the root of a compiled tree is asked for, it goes on. -/
theorem compile_onward (rests : law.Rests) (supplies : compiler.index.Supplies law breaks)
    (builtIn : compiler.registry.BuiltIn)
    (fresh : compiler.shareNodes = true → arena.get? node.text = none)
    (compiled : compiler.compile node arena bench = .ok (handle, kept) after)
    {bears : Error → Prop} (intact : ∀ cause, bears cause → ¬law.Fails cause) {forest : Forest}
    (called : Forest.Called handle bears after.forest forest) :
    ∃ offered weight start,
      Forest.Onward law offered weight start handle after.forest forest := by
  obtain ⟨offer, planted⟩ := compile_planted supplies builtIn fresh compiled
  exact ⟨_, _, _, called.onward rests intact (planted.poised.at_front (Nat.zero_le _))⟩

/-- The root of a tree that was compiled over any index stays done once it is done, and its
candidate never moves back.  A motion that succeeds leaves it on a candidate that is asked for.
Between the calls it may have refused some, but no block has turned out to be broken. -/
theorem compile_monotone (builtIn : compiler.registry.BuiltIn)
    (unshared : compiler.shareNodes = false)
    (compiled : compiler.compile node arena bench = .ok (handle, kept) after)
    {forest later : Forest}
    (called : Forest.Called handle (·.kind ≠ .corruptIndex) after.forest forest)
    (calledLater : Forest.Called handle (·.kind ≠ .corruptIndex) forest later) :
    (forest.isDone handle = true → later.isDone handle = true) ∧
    (∀ doc next, forest.candidate handle = .ok doc → later.candidate handle = .ok next →
      doc ≤ next) ∧
    (∀ (motion : Forest.Motion) (final : Forest), motion.run handle forest = .ok () final →
      final.isDone handle = true ∨
        ∃ doc, final.candidate handle = .ok doc ∧ motion.position ≤ doc.val) ∧
    (forest.isDone handle = false →
      ∃ doc, forest.candidate handle = .ok doc ∧ forest.hasMatch handle doc = true) := by
  have fresh : compiler.shareNodes = true → arena.get? node.text = none := by simp [unshared]
  obtain ⟨_, _, _, reached⟩ := compile_onward Leaf.Law.any_rests compiler.index.supplies_any
    builtIn fresh compiled (fun _ => id) called
  have onward := calledLater.onward Leaf.Law.any_rests (fun _ => id) reached.poised
  refine ⟨fun done => ?_, fun doc next shown shownLater => ?_, fun motion final run => ?_,
    fun running => ?_⟩
  · rw [Forest.isDone_iff_front] at done ⊢
    exact Nat.le_trans done onward.ahead
  · rw [DocId.le_iff, ← Forest.candidate_front shown, ← Forest.candidate_front shownLater]
    exact onward.ahead
  · have ahead := Forest.Motion.run_ahead Leaf.Law.any_rests reached.poised run
    cases running : final.isDone handle with
    | true => exact .inl rfl
    | false =>
        obtain ⟨doc, shown, stands, _⟩ := Forest.candidate_of_front running
        exact .inr ⟨doc, shown, stands ▸ ahead⟩
  · obtain ⟨doc, shown, _, here⟩ := Forest.candidate_of_front running
    exact ⟨doc, shown, here⟩

/-- The root of a union is moved to its second document, asked for its first one and ended. -/
theorem compile_monotone_union :
    let compiler : Compiler := ⟨Example.index, Example.registry, none, "", false⟩
    let bears : Error → Prop := (·.kind ≠ .corruptIndex)
    compiler.registry.BuiltIn ∧ ∃ handle kept after,
      compiler.compile Example.node Arena.empty ⟨Forest.empty, ScoringContext.new⟩ =
        .ok (handle, kept) after ∧
      ∃ forest later, Forest.Called handle bears after.forest forest ∧
        Forest.Called handle bears forest later ∧
        forest.candidate handle = .ok Example.second ∧ later.isDone handle = true ∧
        (forest.isDone handle = true → later.isDone handle = true) ∧
        (∀ doc next, forest.candidate handle = .ok doc → later.candidate handle = .ok next →
          doc ≤ next) ∧
        (∀ (motion : Forest.Motion) (final : Forest), motion.run handle forest = .ok () final →
          final.isDone handle = true ∨
            ∃ doc, final.candidate handle = .ok doc ∧ motion.position ≤ doc.val) ∧
        (forest.isDone handle = false →
          ∃ doc, forest.candidate handle = .ok doc ∧ forest.hasMatch handle doc = true) := by
  intro compiler bears
  have builtIn : compiler.registry.BuiltIn := Registry.withOverrides_builtIn _
  refine ⟨builtIn, ?_⟩
  have runs : Step.evaluate (do
      let result ← compiler.compile Example.node Arena.empty
      Workbench.onForest (Forest.Call.run result.1 (.move (.moveTo Example.second)))
      Workbench.onForest (Forest.Call.run result.1 (.move (.moveTo Example.first)))
      let middle ← get
      Workbench.onForest (Forest.Call.run result.1 .exhaust)
      let final ← get
      pure (middle.forest.position result.1, final.forest.isDone result.1))
      ⟨Forest.empty, ScoringContext.new⟩ = .ok (some Example.second, true) := by cbv
  obtain ⟨_, run⟩ := Step.evaluate_eq_ok runs
  obtain ⟨⟨handle, kept⟩, after, compiled, run⟩ := Step.bind_eq_ok run
  obtain ⟨_, _, moved, run⟩ := Step.bind_eq_ok run
  obtain ⟨_, there, rfl⟩ := Step.onPart_eq_ok moved
  obtain ⟨_, _, asked, run⟩ := Step.bind_eq_ok run
  obtain ⟨forest, back, rfl⟩ := Step.onPart_eq_ok asked
  obtain ⟨_, _, same, run⟩ := Step.bind_eq_ok run
  cases same
  obtain ⟨_, _, left, run⟩ := Step.bind_eq_ok run
  obtain ⟨later, ended, rfl⟩ := Step.onPart_eq_ok left
  obtain ⟨_, _, same, run⟩ := Step.bind_eq_ok run
  cases same
  injection run with shown
  obtain ⟨here, done⟩ := Prod.mk.inj shown
  have called : Forest.Called handle bears after.forest forest :=
    (Forest.Called.still.ok there).ok back
  have calledLater : Forest.Called handle bears forest later := Forest.Called.still.ok ended
  refine ⟨handle, kept, after, compiled, forest, later, called, calledLater, ?_, done,
    compile_monotone builtIn rfl compiled called calledLater⟩
  rw [Forest.candidate, here]

/-- Over a writer's index the root of a compiled tree can be moved on, also where it is a cursor
of the arena that was called before. -/
theorem compile_poised {interval : Nat} {calls : List Index.Call} {given : List Handle}
    (produced : Index.Produced interval calls compiler.index)
    (builtIn : compiler.registry.BuiltIn)
    (worked : compiler.shareNodes = true → compiler.Worked arena bench given)
    (compiled : compiler.compile node arena bench = .ok (handle, kept) after) :
    ∃ offered weight start, Forest.Poised .stored after.forest offered weight start handle
      (after.forest.front handle) := by
  have supplies := produced.serves.supplies
  rcases compile_cases compiled with ⟨shared, held, rfl, rfl⟩ | ⟨fresh, _, _⟩
  · obtain ⟨_, lodged⟩ := worked_lodged Leaf.Law.stored_rests (fun _ => id) supplies builtIn
      (worked shared)
    obtain ⟨_, _, _, bound, poised⟩ :=
      lodged.poised handle (lodged.held _ (Arena.mem_of_get? held))
    exact ⟨_, _, _, poised.at_front bound⟩
  · obtain ⟨_, planted⟩ := compile_planted supplies builtIn fresh compiled
    exact ⟨_, _, _, planted.poised.at_front (Nat.zero_le _)⟩

end Compiler

end Concordance
