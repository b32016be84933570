import Concordance.Proofs.Cursor.Following
import Concordance.Proofs.Cursor.Moving

/-!
# Runs of motions

Whoever drives a cursor moves it to documents and past documents.  As long as
the positions asked for do not decrease, every motion succeeds and leaves the
cursor on its first match at or behind the last of them.
-/

namespace Concordance

namespace Forest

/-- One call that moves a cursor. -/
inductive Motion where
  | moveTo (target : DocId)
  | movePast (doc : DocId)
  deriving DecidableEq

namespace Motion

/-- The position from which on a motion asks for a match.  Behind the greatest
document there is one more. -/
def position : Motion → Nat
  | moveTo target => target.val
  | movePast doc => doc.val + 1

def run (handle : Handle) : Motion → Step Forest Unit
  | moveTo target => Forest.moveTo handle target
  | movePast doc => Forest.movePast handle doc

/-- Make several motions one after the other. -/
def runAll (handle : Handle) (motions : List Motion) : Step Forest Unit :=
  motions.forM (run handle)

end Motion

variable {forest : Forest} {meaning : Meaning} {start floor : Nat} {handle : Handle}

/-- Every cursor can be moved, wherever it stands. -/
theorem moveTo_moves (limit : Nat) : Moves moveTo limit :=
  fun forest meaning start handle floor target _ =>
    moveWithin_moves _ forest meaning start handle floor target (Nat.lt_succ_self _)

theorem moveTo_tracks (tracks : Tracks forest meaning start handle floor) {target : DocId}
    (above : floor ≤ target.val) :
    ∃ after, moveTo handle target forest = .ok () after ∧
      Tracks after meaning start handle target.val ∧
      Outside start (handle.index + 1) forest after :=
  moveTo_moves _ forest meaning start handle floor target (Nat.lt_succ_self _) tracks above

/-- Whoever asks for too little leaves a cursor where it is. -/
theorem moveWithin_stays {depth : Nat} (within : handle.index < depth)
    (tracks : Tracks forest meaning start handle floor) {target : DocId}
    (below : target.val < floor) :
    Tracks (Step.endState (moveWithin depth handle target) forest) meaning start handle floor ∧
      Outside start (handle.index + 1) forest
        (Step.endState (moveWithin depth handle target) forest) := by
  induction depth generalizing meaning start handle floor with
  | zero => exact absurd within (Nat.not_lt_zero _)
  | succ depth induction =>
      cases tracks with
      | null behind bound here =>
          rw [Step.endState_ok (moveWithin_null target here)]
          exact ⟨.null behind bound here, Outside.refl _ _ _⟩
      | leaf behind bound here stands =>
          rename_i leaf _ _
          have stays := Leaf.moveTo_stays stands below
          have run : Step.endState (moveWithin (depth + 1) handle target) forest =
              forest.put handle (.leaf (Step.endState (Leaf.moveTo target) leaf)) := by
            rw [Step.endState, moveWithin_leaf target here, Step.endState]
            cases Leaf.moveTo target leaf <;> rfl
          rw [run]
          refine ⟨?_, Outside.of_put forest _ behind (Nat.lt_succ_self _)⟩
          exact .leaf behind ((size_put ..).symm ▸ bound) (cursor_put_self bound _) stays
      | feature bound here under counts tracks =>
          rename_i wrapper child
          have run : Step.endState (moveWithin (depth + 1) handle target) forest =
              Step.endState (moveWithin depth wrapper.child target) forest := by
            rw [Step.endState, moveWithin_feature target here, ← Step.endState]
          obtain ⟨stays, outside⟩ := induction (by omega) tracks below
          rw [run]
          refine ⟨?_, outside.widen (Nat.le_refl _) (by omega)⟩
          exact .feature (outside.size ▸ bound)
            ((outside.same handle (.inr (by omega))).trans here) under counts stays
      | composite behind bound here family first tracks =>
          rename_i composite meanings starts
          have stays : ∀ found, composite.current = some found → ¬found.doc < target := by
            intro found shown
            have reached := first.floor_le (by rw [shown]; rfl)
            rw [DocId.lt_iff]
            omega
          rw [Step.endState_ok (moveWithin_run here stays)]
          exact ⟨.composite behind bound here family first tracks, Outside.refl _ _ _⟩

theorem exhaustWithin_tracks {depth : Nat} (within : handle.index < depth)
    (tracks : Tracks forest meaning start handle floor) :
    Tracks (exhaustWithin depth handle forest) meaning start handle 18446744073709551616 ∧
      Outside start (handle.index + 1) forest (exhaustWithin depth handle forest) := by
  induction depth generalizing meaning start handle floor with
  | zero => exact absurd within (Nat.not_lt_zero _)
  | succ depth induction =>
      rw [exhaustWithin]
      cases tracks with
      | null behind bound here =>
          rw [here]
          exact ⟨.null behind bound here, Outside.refl _ _ _⟩
      | leaf behind bound here stands =>
          rw [here]
          refine ⟨?_, Outside.of_put forest _ behind (Nat.lt_succ_self _)⟩
          exact .leaf behind ((size_put ..).symm ▸ bound) (cursor_put_self bound _)
            (Leaf.exhaust_at stands)
      | feature bound here below counts tracks =>
          obtain ⟨there, outside⟩ := induction (by omega) tracks
          rw [here]
          refine ⟨?_, outside.widen (Nat.le_refl _) (by omega)⟩
          exact .feature (outside.size ▸ bound)
            ((outside.same handle (.inr (by omega))).trans here) below counts there
      | composite behind bound here family first tracks =>
          rename_i composite meanings starts
          rw [here]
          refine ⟨?_, Outside.of_put forest _ behind (Nat.lt_succ_self _)⟩
          refine @Tracks.composite _ _ _ handle { composite with current := none } meanings starts
            behind ((size_put ..).symm ▸ bound) (cursor_put_self bound _) family
            (.nowhere fun doc impossible => ?_) (fun _ impossible => nomatch impossible)
          exact absurd doc.val_lt (Nat.not_lt.mpr impossible)

/-- A tree of cursors follows what it tracks. -/
theorem tracks_follows : Follows meaning start handle
    (fun floor forest => Tracks forest meaning start handle floor) where
  shows := Tracks.shows
  raise tracks := tracks.raise
  frame tracks outside apart := tracks.frame outside apart
  moves within tracks above := moveWithin_moves _ _ _ _ _ _ _ within tracks above
  exhausts := exhaustWithin_tracks

theorem movePast_tracks (tracks : Tracks forest meaning start handle floor) {doc : DocId}
    (above : floor ≤ doc.val + 1) :
    ∃ after, movePast handle doc forest = .ok () after ∧
      Tracks after meaning start handle (doc.val + 1) ∧
      Outside start (handle.index + 1) forest after :=
  tracks_follows.movePast tracks above

namespace Motion

theorem run_tracks (tracks : Tracks forest meaning start handle floor) {motion : Motion}
    (above : floor ≤ motion.position) :
    ∃ after, motion.run handle forest = .ok () after ∧
      Tracks after meaning start handle motion.position ∧
      Outside start (handle.index + 1) forest after := by
  cases motion with
  | moveTo target => exact moveTo_tracks tracks above
  | movePast doc => exact movePast_tracks tracks above

/-- Any motion at all leaves a cursor on a first match of its meaning. -/
theorem run_keeps (tracks : Tracks forest meaning start handle floor) (motion : Motion) :
    ∃ higher, Tracks (Step.endState (motion.run handle) forest) meaning start handle higher ∧
      Outside start (handle.index + 1) forest (Step.endState (motion.run handle) forest) := by
  by_cases above : floor ≤ motion.position
  · obtain ⟨after, moved, there, outside⟩ := run_tracks tracks above
    rw [Step.endState_ok moved]
    exact ⟨_, there, outside⟩
  · have stays : ∀ target : DocId, target.val < floor →
        ∃ higher, Tracks (Step.endState (Forest.moveTo handle target) forest) meaning start
          handle higher ∧ Outside start (handle.index + 1) forest
            (Step.endState (Forest.moveTo handle target) forest) :=
      fun target below => ⟨floor, moveWithin_stays (Nat.lt_succ_self _) tracks below⟩
    cases motion with
    | moveTo target => exact stays target (Nat.not_le.mp above)
    | movePast doc =>
        rw [run, Forest.movePast]
        cases ahead : doc.next? with
        | none =>
            exact ⟨_, exhaustWithin_tracks (Nat.lt_succ_self handle.index) tracks⟩
        | some next =>
            have step := DocId.next?_eq_some.mp ahead
            apply stays next
            rw [position] at above
            omega

/-- A run of motions whose positions do not decrease ends behind the greatest. -/
theorem runAll_tracks (tracks : Tracks forest meaning start handle floor) {motions : List Motion}
    (behind : ∀ motion ∈ motions, floor ≤ motion.position)
    (ascending : (motions.map position).Pairwise (· ≤ ·)) :
    ∃ after, runAll handle motions forest = .ok () after ∧
      Tracks after meaning start handle ((motions.map position).foldl max floor) := by
  induction motions generalizing forest floor with
  | nil => exact ⟨forest, rfl, tracks⟩
  | cons motion motions induction =>
      obtain ⟨above, _⟩ := List.forall_mem_cons.mp behind
      obtain ⟨first, rest⟩ := List.pairwise_cons.mp ascending
      obtain ⟨middle, moved, there, _⟩ := run_tracks tracks above
      have later : ∀ other ∈ motions, motion.position ≤ other.position :=
        fun other member => first _ (List.mem_map_of_mem member)
      obtain ⟨after, run, tracksAfter⟩ := induction there later rest
      refine ⟨after, ?_, ?_⟩
      · exact (Step.bind_ok _ moved).trans run
      · rw [List.map_cons, List.foldl_cons, Nat.max_eq_right above]
        exact tracksAfter

end Motion

end Forest

end Concordance
