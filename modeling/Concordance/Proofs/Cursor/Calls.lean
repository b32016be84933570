import Concordance.Proofs.Cursor.Poised

/-!
# Calls on a cursor

Whoever holds a cursor may move it to any targets, past any documents, and leave its
documents for good, in any order.  A call that asks for too little changes nothing that
the cursor shows, even where a leaf refuses it.  So a cursor only ever goes on, as long
as no leaf fails for a cause of its own.
-/

namespace Concordance

/-! ## Leaves that are asked for too little -/

namespace Leaf

/-- A leaf that is asked for no more than it stands on keeps its place.  It remembers
the target, or it refuses. -/
theorem moveTo_reached {leaf : Leaf} {target : DocId}
    (reached : ∀ doc, leaf.reader.current = some doc → ¬doc < target) :
    (∃ floor, (floor = leaf.floor ∨ floor = target) ∧
      moveTo target leaf = .ok () { leaf with floor := floor }) ∨
    (target < leaf.floor ∧
      moveTo target leaf = .error (.movedBack leaf.key target leaf.floor) leaf) := by
  cases running : leaf.reader.isDone with
  | true => exact .inl ⟨leaf.floor, .inl rfl, moveTo_done target running⟩
  | false =>
      by_cases refused : target < leaf.floor
      · exact .inr ⟨refused, moveTo_refused running refused⟩
      · refine .inl ⟨target, .inr rfl, ?_⟩
        rw [moveTo_skips running refused]
        exact Step.onPart_ok (Block.Reader.skipTo_reached reached)

/-- A law under which a leaf stays in order where it is asked for too little. -/
def Law.Rests (law : Law) : Prop :=
  ∀ (floor : Nat) (leaf : Leaf) (target : DocId), law.Stands floor leaf → target.val < floor →
    law.Stands floor (Step.endState (moveTo target) leaf)

theorem Sound.rests {floor : Nat} {leaf : Leaf} {target : DocId} (sound : Sound floor leaf)
    (below : target.val < floor) : Sound floor (Step.endState (moveTo target) leaf) := by
  have reached : ∀ doc, leaf.reader.current = some doc → ¬doc < target := by
    intro doc current less
    have behind := sound.reached doc current
    rw [DocId.lt_iff] at less
    omega
  rcases moveTo_reached reached with ⟨held, same, run⟩ | ⟨_, run⟩
  · rw [Step.endState_ok run]
    refine ⟨sound.coherent, sound.reached, fun running => ?_⟩
    rcases same with rfl | rfl
    · exact sound.low running
    · exact Nat.le_of_lt below
  · rw [Step.endState_error run]
    exact sound

theorem Law.any_rests : Law.any.Rests := fun _ _ _ sound below => sound.rests below

theorem Law.stored_rests : Law.stored.Rests := by
  rintro floor leaf target ⟨sound, interval, withExtents, postings, here⟩ below
  exact ⟨sound.rests below, interval, withExtents, postings, moveTo_stays here below⟩

end Leaf

namespace Forest

/-! ## Where a cursor stands -/

/-- The number of the document on which a cursor stands.  A cursor that is done stands
behind all documents. -/
def front (forest : Forest) (handle : Handle) : Nat :=
  match forest.position handle with
  | some doc => doc.val
  | none => 18446744073709551616

variable {forest after : Forest} {handle : Handle}

theorem front_some {doc : DocId} (shown : forest.position handle = some doc) :
    forest.front handle = doc.val := by
  rw [front, shown]

theorem front_none (done : forest.position handle = none) :
    forest.front handle = 18446744073709551616 := by
  rw [front, done]

theorem front_congr (same : after.position handle = forest.position handle) :
    after.front handle = forest.front handle := by
  rw [front, front, same]

theorem front_le (forest : Forest) (handle : Handle) :
    forest.front handle ≤ 18446744073709551616 := by
  cases shown : forest.position handle with
  | none => exact Nat.le_of_eq (front_none shown)
  | some doc =>
      rw [front_some shown]
      exact Nat.le_of_lt doc.val_lt

theorem le_front {floor : Nat} (bound : floor ≤ 18446744073709551616)
    (reached : ∀ doc, forest.position handle = some doc → floor ≤ doc.val) :
    floor ≤ forest.front handle := by
  cases shown : forest.position handle with
  | none => rwa [front_none shown]
  | some doc =>
      rw [front_some shown]
      exact reached doc shown

theorem isDone_iff_front : forest.isDone handle = true ↔
    18446744073709551616 ≤ forest.front handle := by
  rw [isDone]
  cases shown : forest.position handle with
  | none =>
      rw [front_none shown]
      exact iff_of_true rfl (Nat.le_refl _)
  | some doc =>
      have bound := doc.val_lt
      rw [front_some shown]
      exact iff_of_false Bool.false_ne_true (by omega)

theorem candidate_front {doc : DocId} (shown : forest.candidate handle = .ok doc) :
    forest.front handle = doc.val := by
  unfold candidate at shown
  split at shown
  · rename_i current here
    cases shown
    exact front_some here
  · cases shown

theorem candidate_of_front (running : forest.isDone handle = false) :
    ∃ doc, forest.candidate handle = .ok doc ∧ forest.front handle = doc.val ∧
      forest.hasMatch handle doc = true := by
  cases shown : forest.position handle with
  | none =>
      rw [isDone, shown] at running
      cases running
  | some doc =>
      refine ⟨doc, ?_, front_some shown, ?_⟩
      · rw [candidate, shown]
      · rw [hasMatch, shown]
        exact beq_self_eq_true _

variable {law : Leaf.Law} {offered : Capabilities} {weight start floor : Nat}

/-- A cursor can be moved from where it stands. -/
theorem Poised.at_front (poised : Poised law forest offered weight start handle floor)
    (bound : floor ≤ 18446744073709551616) :
    Poised law forest offered weight start handle (forest.front handle) := by
  apply poised.raise (le_front bound fun doc shown => poised.reached shown)
  intro doc shown
  exact Nat.le_of_eq (front_some shown)

/-! ## Asking for too little -/

/-- A cursor that is asked for too little shows what it showed before, also where it
refuses. -/
theorem moveWithin_rests (rests : law.Rests) {depth : Nat} (within : handle.index < depth)
    (poised : Poised law forest offered weight start handle floor) {target : DocId}
    (below : target.val < floor) :
    ∃ after, (moveWithin depth handle target forest = .ok () after ∨
        ∃ cause, moveWithin depth handle target forest = .error cause after ∧
          cause.kind = .invalidCursorState) ∧
      Poised law after offered weight start handle floor ∧
      Outside start (handle.index + 1) forest after ∧
      after.position handle = forest.position handle := by
  induction depth generalizing offered weight start handle floor with
  | zero => exact absurd within (Nat.not_lt_zero _)
  | succ depth induction =>
      have tree := poised
      rw [moveWithin, Step.bind_ok _ (Step.get_run _)]
      cases poised with
      | null behind bound here =>
          rw [here]
          exact ⟨forest, .inl rfl, tree, Outside.refl _ _ _, rfl⟩
      | leaf behind bound here stands light =>
          rename_i leaf
          have reached : ∀ doc, leaf.reader.current = some doc → ¬doc < target := by
            intro doc current less
            have ahead := law.reached stands current
            rw [DocId.lt_iff] at less
            omega
          have stays := rests floor leaf target stands below
          have put (held : DocId)
              (stands : law.Stands floor { leaf with floor := held }) :
              Poised law (forest.put handle (.leaf { leaf with floor := held }))
                leaf.capabilities weight start handle floor :=
            @Poised.leaf law _ weight start floor handle { leaf with floor := held } behind
              ((size_put ..).symm ▸ bound) (cursor_put_self bound _) stands light
          have shown (held : DocId) :
              (forest.put handle (.leaf { leaf with floor := held })).position handle =
                forest.position handle := by
            rw [position_leaf (cursor_put_self bound _), position_leaf here]
          rw [here]
          dsimp only
          rcases Leaf.moveTo_reached reached with ⟨held, _, run⟩ | ⟨_, run⟩
          · rw [Step.endState_ok run] at stays
            rw [run]
            exact ⟨_, .inl rfl, put held stays, Outside.of_put forest _ behind
              (Nat.lt_succ_self _), shown held⟩
          · rw [Step.endState_error run] at stays
            rw [run]
            exact ⟨_, .inr ⟨_, rfl, rfl⟩, put leaf.floor stays, Outside.of_put forest _ behind
              (Nat.lt_succ_self _), shown leaf.floor⟩
      | feature bound here under counts poised =>
          rename_i wrapper _
          obtain ⟨after, outcome, stays, outside, same⟩ := induction (by omega) poised below
          have stands : after.cursor handle = .feature wrapper :=
            (outside.same handle (.inr (by omega))).trans here
          rw [here]
          refine ⟨after, outcome, ?_, outside.widen (Nat.le_refl _) (by omega), ?_⟩
          · exact .feature (outside.size ▸ bound) stands under counts stays
          · rw [Poised.position_feature stands stays counts,
              Poised.position_feature here poised counts, same]
      | composite behind bound here siblings light reached whole low poised =>
          rename_i shape _ _ _ _
          have enough : ∀ found, shape.current = some found → ¬found.doc < target := by
            intro found shown less
            have ahead := reached found shown
            rw [DocId.lt_iff] at less
            omega
          have stays := @moveWithin_run depth _ _ _ _ here enough
          rw [moveWithin, Step.bind_ok _ (Step.get_run _)] at stays
          exact ⟨forest, .inl stays, tree, Outside.refl _ _ _, rfl⟩

/-! ## Going on -/

/-- A cursor stands where it stood or behind it, and can be moved from there. -/
structure Onward (law : Leaf.Law) (offered : Capabilities) (weight start : Nat) (handle : Handle)
    (before after : Forest) : Prop where
  poised : Poised law after offered weight start handle (after.front handle)
  ahead : before.front handle ≤ after.front handle
  outside : Outside start (handle.index + 1) before after

theorem Onward.refl (poised : Poised law forest offered weight start handle (forest.front handle)) :
    Onward law offered weight start handle forest forest :=
  ⟨poised, Nat.le_refl _, Outside.refl _ _ _⟩

theorem Onward.trans {middle : Forest}
    (first : Onward law offered weight start handle forest middle)
    (second : Onward law offered weight start handle middle after) :
    Onward law offered weight start handle forest after :=
  ⟨second.poised, Nat.le_trans first.ahead second.ahead, first.outside.trans second.outside⟩

/-- A cursor that can be moved from a position on has gone on to it. -/
theorem Onward.of_poised {target : Nat} (bound : target ≤ 18446744073709551616)
    (ahead : forest.front handle ≤ target)
    (poised : Poised law after offered weight start handle target)
    (outside : Outside start (handle.index + 1) forest after) :
    Onward law offered weight start handle forest after ∧ target ≤ after.front handle :=
  have reached := le_front bound fun _ shown => poised.reached shown
  ⟨⟨poised.at_front bound, Nat.le_trans ahead reached, outside⟩, reached⟩

/-- The three ways in which a call that asks for a position can end. -/
def GoesOn (law : Leaf.Law) (offered : Capabilities) (weight start : Nat) (handle : Handle)
    (target : Nat) (step : Step Forest Unit) (forest : Forest) : Prop :=
  (∃ after, step forest = .ok () after ∧ Onward law offered weight start handle forest after ∧
    target ≤ after.front handle) ∨
  (∃ cause after, step forest = .error cause after ∧ cause.kind = .invalidCursorState ∧
    Onward law offered weight start handle forest after) ∨
  ∃ cause after, step forest = .error cause after ∧ law.Fails cause

theorem moveTo_goesOn (rests : law.Rests)
    (poised : Poised law forest offered weight start handle (forest.front handle))
    (target : DocId) :
    GoesOn law offered weight start handle target.val (moveTo handle target) forest := by
  by_cases below : target.val < forest.front handle
  · obtain ⟨after, outcome, stays, outside, same⟩ :=
      moveWithin_rests rests (Nat.lt_succ_self _) poised below
    have front := front_congr same
    have onward : Onward law offered weight start handle forest after :=
      ⟨front ▸ stays, Nat.le_of_eq front.symm, outside⟩
    rcases outcome with run | ⟨cause, run, kind⟩
    · exact .inl ⟨after, run, onward, front ▸ Nat.le_of_lt below⟩
    · exact .inr (.inl ⟨cause, after, run, kind, onward⟩)
  · have above := Nat.not_lt.mp below
    have ends := moveTo_drives _ forest offered weight start handle _ target
      (Nat.lt_succ_self _) poised above
    cases run : moveTo handle target forest with
    | ok value after =>
        obtain ⟨there, outside⟩ := ends.of_ok run
        exact .inl ⟨after, run, Onward.of_poised (Nat.le_of_lt target.val_lt) above there outside⟩
    | error cause after => exact .inr (.inr ⟨cause, after, run, ends.of_error run⟩)

theorem exhaust_onward (poised : Poised law forest offered weight start handle floor) :
    Onward law offered weight start handle forest (forest.exhaust handle) ∧
      18446744073709551616 ≤ (forest.exhaust handle).front handle := by
  obtain ⟨ended, outside⟩ := exhaustWithin_poised (Nat.lt_succ_self handle.index) poised
  exact Onward.of_poised (Nat.le_refl _) (front_le forest handle) ended outside

theorem movePast_goesOn (rests : law.Rests)
    (poised : Poised law forest offered weight start handle (forest.front handle)) (doc : DocId) :
    GoesOn law offered weight start handle (doc.val + 1) (movePast handle doc) forest := by
  unfold movePast
  cases ahead : doc.next? with
  | none =>
      obtain ⟨onward, behind⟩ := exhaust_onward poised
      refine .inl ⟨forest.exhaust handle, rfl, onward, ?_⟩
      rwa [DocId.next?_eq_none.mp ahead]
  | some next =>
      have moved := moveTo_goesOn rests poised next
      rwa [DocId.next?_eq_some.mp ahead] at moved

/-- However far a motion asks, the cursor goes on. -/
theorem Motion.run_goesOn (rests : law.Rests)
    (poised : Poised law forest offered weight start handle (forest.front handle)) :
    ∀ motion : Motion,
      GoesOn law offered weight start handle motion.position (motion.run handle) forest
  | moveTo target => moveTo_goesOn rests poised target
  | movePast doc => movePast_goesOn rests poised doc

/-- A motion that succeeds reaches the position that it asks for. -/
theorem Motion.run_ahead (rests : law.Rests)
    (poised : Poised law forest offered weight start handle (forest.front handle))
    {motion : Motion} (run : motion.run handle forest = .ok () after) :
    motion.position ≤ after.front handle := by
  rcases Motion.run_goesOn rests poised motion with
    ⟨final, same, _, ahead⟩ | ⟨_, _, refused, _⟩ | ⟨_, _, failed, _⟩
  · rw [run] at same
    cases same
    exact ahead
  · rw [run] at refused
    cases refused
  · rw [run] at failed
    cases failed

/-- One call of whoever holds a cursor. -/
inductive Call where
  | move (motion : Motion)
  | exhaust
  deriving DecidableEq

def Call.run (handle : Handle) : Call → Step Forest Unit
  | move motion => motion.run handle
  | exhaust => modify (·.exhaust handle)

/-- A call ends with the cursor further on, unless a leaf fails. -/
theorem Call.run_onward (rests : law.Rests)
    (poised : Poised law forest offered weight start handle (forest.front handle)) (call : Call)
    (intact : ∀ cause after, call.run handle forest = .error cause after → ¬law.Fails cause) :
    Onward law offered weight start handle forest (Step.endState (call.run handle) forest) := by
  cases call with
  | exhaust => exact (exhaust_onward poised).1
  | move motion =>
      rcases Motion.run_goesOn rests poised motion with
        ⟨after, run, onward, _⟩ | ⟨cause, after, run, _, onward⟩ | ⟨cause, after, run, fails⟩
      · exact (Step.endState_ok run).symm ▸ onward
      · exact (Step.endState_error run).symm ▸ onward
      · exact absurd fails (intact cause after run)

/-- What calls on one cursor lead to, with failures that the caller can bear. -/
inductive Called (handle : Handle) (bears : Error → Prop) (forest : Forest) : Forest → Prop where
  | still : Called handle bears forest forest
  | again {middle : Forest} (called : Called handle bears forest middle) (call : Call)
      (bearable : ∀ cause after, call.run handle middle = .error cause after → bears cause) :
      Called handle bears forest (Step.endState (call.run handle) middle)

/-- A call that succeeds is one that can be borne. -/
theorem Called.ok {bears : Error → Prop} {middle : Forest}
    (called : Called handle bears forest middle) {call : Call}
    (run : call.run handle middle = .ok () after) : Called handle bears forest after := by
  have again := called.again call fun cause failed impossible => by
    rw [run] at impossible
    cases impossible
  rwa [Step.endState_ok run] at again

/-- Whatever a cursor is asked for, it goes on. -/
theorem Called.onward {bears : Error → Prop} (rests : law.Rests)
    (intact : ∀ cause, bears cause → ¬law.Fails cause)
    (poised : Poised law forest offered weight start handle (forest.front handle))
    (called : Called handle bears forest after) :
    Onward law offered weight start handle forest after := by
  induction called with
  | still => exact Onward.refl poised
  | again called call bearable induction =>
      apply induction.trans
      apply Call.run_onward rests induction.poised call
      exact fun cause after run => intact cause (bearable cause after run)

end Forest

end Concordance
