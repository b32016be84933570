import Concordance.Proofs.Compile.Onward
import Concordance.Proofs.Cursor.Turns

/-!
# Moving back

A combination that is asked for its own document or for one before it does nothing at all, so
that neither it nor anything that it is built over behaves in another way later on.  A feature
leaves this to its child.  Over a combination that makes no difference, but over a leaf it does:
the leaf remembers the target, and it refuses one that lies below an earlier one.
-/

namespace Concordance

/-- A leaf that is asked for no more than the document on which it stands refuses, or it
remembers the target. -/
theorem Leaf.moveTo_behind {leaf : Leaf} {doc target : DocId}
    (shown : leaf.reader.current = some doc) (behind : target ≤ doc) :
    moveTo target leaf =
      if target < leaf.floor then .error (.movedBack leaf.key target leaf.floor) leaf
      else .ok () { leaf with floor := target } := by
  have running := Block.Reader.isDone_eq_false shown
  have reached : ∀ other, leaf.reader.current = some other → ¬other < target := by
    intro other same
    cases shown.symm.trans same
    exact DocId.not_lt.mpr behind
  by_cases refused : target < leaf.floor
  · rw [if_pos refused, moveTo_refused running refused]
  · rw [if_neg refused, moveTo_skips running refused]
    exact Step.onPart_ok (Block.Reader.skipTo_reached reached)

namespace Forest

variable {law : Leaf.Law} {forest : Forest} {offered : Capabilities} {weight start floor : Nat}
  {handle : Handle} {doc target : DocId}

/-- A cursor that does not show a leaf does nothing where it is asked for no more than the
document on which it stands. -/
theorem moveWithin_behind {depth : Nat} (within : handle.index < depth)
    (poised : Poised law forest offered weight start handle floor)
    (inner : ∀ leaf, forest.subject handle ≠ .leaf leaf)
    (shown : forest.position handle = some doc) (behind : target ≤ doc) :
    moveWithin depth handle target forest = .ok () forest := by
  induction depth generalizing offered weight start handle floor with
  | zero => exact absurd within (Nat.not_lt_zero _)
  | succ depth induction =>
      cases poised with
      | null _ _ here => exact moveWithin_null target here
      | leaf _ _ here =>
          rw [subject, here] at inner
          exact absurd rfl (inner _)
      | feature bound here below counts poised =>
          rename_i wrapper _
          have same : forest.subject wrapper.child = forest.subject handle := by
            rw [poised.subject_eq counts, subject, here]
          rw [moveWithin_feature target here]
          apply induction (by omega) poised
          · rwa [same]
          · rwa [position, same]
      | composite _ _ here =>
          apply moveWithin_run here
          intro found current
          rw [position_composite here, current] at shown
          have stands : found.doc = doc := Option.some.inj shown
          rw [stands]
          exact DocId.not_lt.mpr behind

theorem subject_feature {wrapper : Feature} (here : forest.cursor handle = .feature wrapper) :
    forest.subject handle = forest.cursor wrapper.child := by
  rw [subject, here]

theorem Poised.child_lt {wrapper : Feature} (here : forest.cursor handle = .feature wrapper)
    (poised : Poised law forest offered weight start handle floor) :
    wrapper.child.index < handle.index := by
  cases poised with
  | null _ _ other | leaf _ _ other | composite _ _ other =>
      rw [here] at other
      cases other
  | feature _ same below =>
      rw [here] at same
      cases same
      exact below

section Feature

variable {wrapper : Feature} {leaf : Leaf} (here : forest.cursor handle = .feature wrapper)
  (child : forest.cursor wrapper.child = .leaf leaf)

include here child

/-- A feature does with its leaf what the leaf does. -/
theorem moveTo_feature_leaf (poised : Poised law forest offered weight start handle floor)
    (shown : forest.position handle = some doc) (behind : target ≤ doc) :
    moveTo handle target forest =
      if target < leaf.floor then .error (.movedBack leaf.key target leaf.floor) forest
      else .ok () (forest.put wrapper.child (.leaf { leaf with floor := target })) := by
  have below := Poised.child_lt here poised
  obtain ⟨depth, deep⟩ := Nat.exists_eq_add_one_of_ne_zero (Nat.ne_zero_of_lt below)
  rw [position, subject_feature here, child] at shown
  rw [moveTo, moveWithin_feature target here, deep, moveWithin_leaf target child,
    Leaf.moveTo_behind shown behind]
  by_cases refused : target < leaf.floor
  · rw [if_pos refused, if_pos refused]
    exact congrArg _ (put_self child (Nat.lt_trans below poised.bound))
  · rw [if_neg refused, if_neg refused]

/-- A feature shows the same whatever its leaf remembers. -/
theorem face_floor (below : wrapper.child.index < handle.index)
    (bound : handle.index < forest.cursors.size) (held : DocId) :
    (forest.put wrapper.child (.leaf { leaf with floor := held })).face handle =
      forest.face handle := by
  have inside : wrapper.child.index < forest.cursors.size := Nat.lt_trans below bound
  have whole : (forest.put wrapper.child (.leaf { leaf with floor := held })).cursor handle =
      forest.cursor handle := cursor_put_ne (Nat.ne_of_gt below) _
  have there := whole.trans here
  have place : (forest.put wrapper.child (.leaf { leaf with floor := held })).position handle =
      forest.position handle := by
    rw [position, position, subject_feature there, subject_feature here, cursor_put_self inside,
      child]
    rfl
  have key : ((forest.put wrapper.child (.leaf { leaf with floor := held })).subject handle).key =
      (forest.subject handle).key := by
    rw [subject_feature there, subject_feature here, cursor_put_self inside, child]
    rfl
  unfold face isDone candidate hasMatch count extents
  rw [place, key, whole]

end Feature

end Forest

namespace Compiler

variable {compiler : Compiler} {interval : Nat} {calls : List Index.Call} {given : List Handle}
  {node : Node} {arena kept : Arena} {bench after : Workbench} {handle : Handle}

/-- After any calls on a compiled root that is not done, moving it to its document or to one
before it changes nothing at all, unless it shows a leaf.  A feature over a leaf keeps what it
shows, and its leaf remembers the target as the new floor; it refuses a target below the floor. -/
theorem compile_backward (produced : Index.Produced interval calls compiler.index)
    (builtIn : compiler.registry.BuiltIn)
    (worked : compiler.shareNodes = true → compiler.Worked arena bench given)
    (compiled : compiler.compile node arena bench = .ok (handle, kept) after) {forest : Forest}
    (called : Forest.Called handle (fun _ => True) after.forest forest) {doc target : DocId}
    (shown : forest.candidate handle = .ok doc) (behind : target ≤ doc) :
    ((∀ leaf, forest.subject handle ≠ .leaf leaf) →
      Forest.moveTo handle target forest = .ok () forest) ∧
    ∀ wrapper leaf, forest.cursor handle = .feature wrapper →
      forest.cursor wrapper.child = .leaf leaf →
      (leaf.floor ≤ target → ∃ later, Forest.moveTo handle target forest = .ok () later ∧
        later.face handle = forest.face handle ∧
        later = forest.put wrapper.child (.leaf { leaf with floor := target })) ∧
      (target < leaf.floor → Forest.moveTo handle target forest =
        .error (.movedBack leaf.key target leaf.floor) forest) := by
  obtain ⟨_, _, _, poised⟩ := compile_poised produced builtIn worked compiled
  have reached := (called.onward Leaf.Law.stored_rests (fun _ _ => id) poised).poised
  have current := Forest.position_of_candidate shown
  refine ⟨fun inner => ?_, fun wrapper leaf here child => ?_⟩
  · exact Forest.moveWithin_behind (Nat.lt_succ_self _) reached inner current behind
  · have moved := Forest.moveTo_feature_leaf here child reached current behind
    refine ⟨fun allowed => ?_, fun refused => ?_⟩
    · rw [if_neg (DocId.not_lt.mpr allowed)] at moved
      refine ⟨_, moved, Forest.face_floor here child ?_ reached.bound target, rfl⟩
      exact Forest.Poised.child_lt here reached
    · rw [moved, if_pos refused]

/-- A union over an intersection is moved to its second document and asked for its first one. -/
theorem compile_backward_union :
    let compiler : Compiler := ⟨Example.index, Example.registry, none, "", false⟩
    Index.Produced 1 Example.calls compiler.index ∧ compiler.registry.BuiltIn ∧
      ∃ handle kept after forest,
        compiler.compile Example.node Arena.empty ⟨Forest.empty, ScoringContext.new⟩ =
          .ok (handle, kept) after ∧
        Forest.Called handle (fun _ => True) after.forest forest ∧
        forest.candidate handle = .ok Example.second ∧ Example.first ≤ Example.second ∧
        Forest.moveTo handle Example.first forest = .ok () forest := by
  intro compiler
  have builtIn : compiler.registry.BuiltIn := Registry.withOverrides_builtIn _
  refine ⟨Example.produced, builtIn, ?_⟩
  have runs : Step.evaluate (do
      let result ← compiler.compile Example.node Arena.empty
      Workbench.onForest (Forest.Call.run result.1 (.move (.moveTo Example.second)))
      let bench ← get
      pure (bench.forest.position result.1,
        ((bench.forest.subject result.1).statistics? Collection.empty).isSome))
      ⟨Forest.empty, ScoringContext.new⟩ = .ok (some Example.second, false) := by cbv
  obtain ⟨_, run⟩ := Step.evaluate_eq_ok runs
  obtain ⟨⟨handle, kept⟩, after, compiled, run⟩ := Step.bind_eq_ok run
  obtain ⟨_, _, moved, run⟩ := Step.bind_eq_ok run
  obtain ⟨forest, there, rfl⟩ := Step.onPart_eq_ok moved
  injection run with outcome
  obtain ⟨here, subject⟩ := Prod.mk.inj outcome
  have called : Forest.Called handle (fun _ => True) after.forest forest :=
    Forest.Called.still.ok there
  have shown : forest.candidate handle = .ok Example.second := by
    rw [Forest.candidate, here]
  have behind : Example.first ≤ Example.second := by decide
  refine ⟨handle, kept, after, forest, compiled, called, shown, behind, ?_⟩
  have alone : compiler.shareNodes = true →
      compiler.Worked Arena.empty ⟨Forest.empty, ScoringContext.new⟩ [] :=
    fun shared => by cases shared
  apply (compile_backward Example.produced builtIn alone compiled called shown behind).1
  intro leaf same
  simp [same, Cursor.statistics?] at subject

/-- A feature over a leaf is moved to its second document and asked for its first one.  It
refuses. -/
theorem compile_backward_feature :
    ¬∀ (interval : Nat) (calls : List Index.Call) (compiler : Compiler) (node : Node)
      (handle : Handle) (kept : Arena) (after : Workbench) (forest : Forest)
      (wrapper : Feature) (doc target : DocId),
      Index.Produced interval calls compiler.index → compiler.registry.BuiltIn →
      compiler.shareNodes = false →
      compiler.compile node Arena.empty ⟨Forest.empty, ScoringContext.new⟩ =
        .ok (handle, kept) after →
      Forest.Called handle (fun _ => True) after.forest forest →
      forest.cursor handle = .feature wrapper → forest.candidate handle = .ok doc →
      target ≤ doc →
      ∃ later, Forest.moveTo handle target forest = .ok () later ∧
        later.face handle = forest.face handle := by
  intro stays
  let compiler : Compiler := ⟨Example.index, Example.registry, none, "", false⟩
  let node : Node := ⟨"feature", TextMap.empty, [Node.term "a"]⟩
  have runs : Step.evaluate (do
      let result ← compiler.compile node Arena.empty
      Workbench.onForest (Forest.Call.run result.1 (.move (.moveTo Example.second)))
      let bench ← get
      pure (bench.forest.position result.1, (bench.forest.cursor result.1).estimator?.isSome,
        ((Forest.moveTo result.1 Example.first).evaluate bench.forest).toBool))
      ⟨Forest.empty, ScoringContext.new⟩ = .ok (some Example.second, true, false) := by cbv
  obtain ⟨_, run⟩ := Step.evaluate_eq_ok runs
  obtain ⟨⟨handle, kept⟩, after, compiled, run⟩ := Step.bind_eq_ok run
  obtain ⟨_, _, moved, run⟩ := Step.bind_eq_ok run
  obtain ⟨forest, there, rfl⟩ := Step.onPart_eq_ok moved
  injection run with outcome
  obtain ⟨here, rest⟩ := Prod.mk.inj outcome
  obtain ⟨kind, refused⟩ := Prod.mk.inj rest
  have shown : forest.candidate handle = .ok Example.second := by
    rw [Forest.candidate, here]
  cases root : forest.cursor handle with
  | null _ | leaf _ | composite _ => simp [root, Cursor.estimator?] at kind
  | feature wrapper =>
      obtain ⟨later, back, _⟩ := stays 1 Example.calls compiler node handle kept after forest
        wrapper Example.second Example.first Example.produced (Registry.withOverrides_builtIn _)
        rfl compiled (Forest.Called.still.ok there) root shown (by decide)
      simp [Step.evaluate_ok back, Except.toBool] at refused

end Compiler

end Concordance
