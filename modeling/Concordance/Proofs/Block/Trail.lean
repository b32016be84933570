import Concordance.Proofs.Block.Foreign
import Concordance.Proofs.Block.Scanning
import Concordance.Proofs.Repetition

/-!
# The trail of a reader

As long as its moves end well, a reader over a parsed block shows ascending documents, whoever
wrote the block.  The skip entries may lie: a group that is entered can start anywhere, but it
is left again only at or behind the target.  No more documents are shown than the summary has,
since each of them stands for a posting that was decoded or passed over.
-/

namespace Concordance

namespace Block

namespace Reader

variable {reader middle after : Reader} {target : DocId}

/-- A reader as it is left by moves that end well: the next gap counts from the document it
shows, and if it shows none all postings are behind it. -/
structure Settled (reader : Reader) : Prop where
  coherent : reader.Coherent
  base : ∀ doc, reader.current = some doc → reader.base = some doc
  small : reader.isDone = false → reader.count < 4294967296
  ended : reader.isDone = true →
    reader.decoded = reader.layout.summary.docs ∧ advance reader = .ok () reader

/-- Behind the last posting a reader whose streams are used up can be advanced again. -/
theorem advance_clean (last : reader.decoded = reader.layout.summary.docs)
    (clean : reader.hasTrailingBytes = false) : advance reader = .ok () reader.exhaust := by
  unfold advance
  rw [Step.bind_ok _ (Step.get_run reader), if_pos last, if_neg (by rw [clean]; decide)]
  rfl

/-- From a coherent reader an advance leads to a settled one. -/
theorem Advanced.settled (advanced : Advanced reader after) (coherent : after.Coherent) :
    after.Settled := by
  cases advanced with
  | ended last clean =>
      exact ⟨coherent, fun _ impossible => (nomatch impossible), fun running => (nomatch running),
        fun _ => ⟨last, @advance_clean reader.exhaust last clean⟩⟩
  | @posting _ doc shown base _ _ small =>
      refine ⟨coherent, ?_, fun _ => small, ?_⟩
      · intro other same
        cases shown.symm.trans same
        exact base
      · intro done
        rw [isDone_eq_false shown] at done
        cases done

/-! ## One move -/

/-- What a move that ends well makes of a settled reader. -/
inductive Progress (reader : Reader) : Reader → Prop where
  | stayed : Progress reader reader
  | ended {after : Reader} (running : reader.isDone = false) (done : after.isDone = true) :
      Progress reader after
  | onto {after : Reader} {old new : DocId} (left : reader.current = some old)
      (shown : after.current = some new) (above : old < new)
      (further : reader.decoded < after.decoded) : Progress reader after

theorem Settled.advanced (settled : reader.Settled) (run : advance reader = .ok () after) :
    after.Settled ∧ Stays reader after ∧ Advanced reader after := by
  obtain ⟨coherent, stays, advanced⟩ := (advance_ends settled.coherent.founded).of_ok run
  exact ⟨advanced.settled coherent, stays, advanced⟩

theorem Settled.advance (settled : reader.Settled) (run : Reader.advance reader = .ok () after) :
    Progress reader after := by
  cases shown : reader.current with
  | none =>
      obtain ⟨_, same⟩ := settled.ended (isDone_eq_true shown)
      cases run.symm.trans same
      exact .stayed
  | some doc =>
      obtain ⟨_, _, advanced⟩ := settled.advanced run
      cases advanced with
      | ended => exact .ended (isDone_eq_false shown) rfl
      | posting shownAfter _ decoded above =>
          exact .onto shown shownAfter (above doc (settled.base doc shown))
            (decoded ▸ Nat.lt_succ_self _)

theorem Scans.of_done (scans : Scans target reader after) (done : reader.isDone = true) :
    after = reader := by
  cases scans with
  | stop => rfl
  | again known =>
      rw [isDone_eq_false known] at done
      cases done

/-- A scan keeps a reader settled and loses no posting that was decoded. -/
theorem Scans.settled (scans : Scans target reader after) (settled : reader.Settled) :
    after.Settled ∧ (after.isDone = true ∨ reader.decoded ≤ after.decoded) := by
  induction scans with
  | stop => exact ⟨settled, .inr (Nat.le_refl _)⟩
  | again _ _ advanced later induction =>
      obtain ⟨settledMiddle, _, step⟩ := settled.advanced advanced
      obtain ⟨settledAfter, more⟩ := induction settledMiddle
      refine ⟨settledAfter, ?_⟩
      rcases step.further with done | further
      · rw [later.of_done done]
        exact .inl done
      · exact more.imp_right fun more => by omega

/-- A reader that was left below a target and scans on from further ahead makes progress. -/
theorem progress_of_scans {doc : DocId} (shown : reader.current = some doc) (below : doc < target)
    (settled : middle.Settled)
    (further : middle.isDone = true ∨ reader.decoded < middle.decoded)
    (scans : Scans target middle after)
    (reached : ∀ new, after.current = some new → target ≤ new) :
    after.Settled ∧ Progress reader after := by
  obtain ⟨settledAfter, more⟩ := scans.settled settled
  refine ⟨settledAfter, ?_⟩
  cases shownAfter : after.current with
  | none => exact .ended (isDone_eq_false shown) (isDone_eq_true shownAfter)
  | some new =>
      have running := isDone_eq_false shownAfter
      refine .onto shown shownAfter (Nat.lt_of_lt_of_le below (reached new shownAfter)) ?_
      rcases further with done | further
      · rw [scans.of_done done, done] at running
        cases running
      · rcases more with done | more
        · rw [done] at running
          cases running
        · omega

theorem Settled.skipTo (settled : reader.Settled)
    (run : Reader.skipTo target reader = .ok () after) :
    after.Settled ∧ Stays reader after ∧ Progress reader after ∧
      ∀ doc, after.current = some doc → target ≤ doc := by
  obtain ⟨_, stays, reached⟩ := (skipTo_ends settled.coherent target).of_ok run
  have progress : after.Settled ∧ Progress reader after := by
    unfold Reader.skipTo at run
    rw [Step.bind_ok _ (Step.get_run reader)] at run
    cases shown : reader.current with
    | none =>
        rw [shown] at run
        cases run
        exact ⟨settled, .stayed⟩
    | some doc =>
        rw [shown] at run
        dsimp only at run
        by_cases below : doc < target
        · rw [if_pos below] at run
          cases chosen : reader.groupFor target with
          | none =>
              rw [chosen] at run
              cases scans_of_advanceTo run reached with
              | stop early => exact absurd (early doc shown) (DocId.not_le.mpr below)
              | again _ _ advanced later =>
                  obtain ⟨settledMiddle, _, step⟩ := settled.advanced advanced
                  exact progress_of_scans shown below settledMiddle step.further later reached
          | some entry =>
              obtain ⟨group, before⟩ := entry
              rw [chosen] at run
              dsimp only at run
              rw [Step.bind_ok _ (Step.set_run _ _)] at run
              obtain ⟨_, middle, advanced, later⟩ := Step.bind_eq_ok run
              obtain ⟨_, passed, _⟩ := groupFor_mem settled.coherent.founded chosen
              obtain ⟨coherent, _, step⟩ :=
                (advance_ends (settled.coherent.founded.enterGroup chosen)).of_ok advanced
              refine progress_of_scans shown below (step.settled coherent) ?_
                (scans_of_advanceTo later reached) reached
              exact step.further.imp_right (Nat.lt_of_le_of_lt passed)
        · rw [if_neg below] at run
          cases run
          exact ⟨settled, .stayed⟩
  exact ⟨progress.1, stays, progress.2, reached⟩

theorem Settled.run {move : Move} (settled : reader.Settled)
    (run : move.run reader = .ok () after) :
    after.Settled ∧ Stays reader after ∧ Progress reader after := by
  cases move with
  | advance =>
      obtain ⟨settledAfter, stays, _⟩ := settled.advanced run
      exact ⟨settledAfter, stays, settled.advance run⟩
  | skipTo target =>
      obtain ⟨settledAfter, stays, progress, _⟩ := settled.skipTo run
      exact ⟨settledAfter, stays, progress⟩

/-- A move of a settled reader that fails has found the block corrupt. -/
theorem Settled.error_kind {move : Move} {cause : Error} (settled : reader.Settled)
    (failed : move.run reader = .error cause after) : cause.kind = .corruptIndex := by
  cases move with
  | advance => exact (advance_ends settled.coherent.founded).of_error failed
  | skipTo target => exact (skipTo_ends settled.coherent target).of_error failed

/-! ## Views -/

/-- A view of a whole posting or of none. -/
structure View.Whole (withExtents : Bool) (view : View) : Prop where
  occurs : view.done = false → 0 < view.count ∧ view.count < 4294967296
  listed : view.done = false → withExtents = true →
    view.count = view.extents.length ∧ Extent.WellOrdered view.extents

theorem Settled.whole (settled : reader.Settled) : reader.view.Whole reader.withExtents := by
  refine ⟨fun running => ⟨settled.coherent.occurs running, settled.small running⟩, ?_⟩
  intro running reads
  obtain ⟨length, ordered, _⟩ := settled.coherent.shown running reads
  exact ⟨length.symm, ordered⟩

/-- How the views in front of a move and behind it compare. -/
structure Move.Leads (move : Move) (before after : View) : Prop where
  still : before.done = true → after = before
  ascends : after ≠ before → ∀ old new, before.current = some old →
    after.current = some new → old < new
  leaves : move = .advance → before.done = false → after ≠ before
  reaches : ∀ target, move = .skipTo target → ∀ doc, after.current = some doc → target ≤ doc

theorem Progress.still (progress : Progress reader after) (done : reader.isDone = true) :
    after = reader := by
  cases progress with
  | stayed => rfl
  | ended running =>
      rw [running] at done
      cases done
  | onto left =>
      rw [isDone_eq_false left] at done
      cases done

theorem Progress.ascends (progress : Progress reader after) (moved : after.view ≠ reader.view)
    {old new : DocId} (left : reader.current = some old) (shown : after.current = some new) :
    old < new := by
  cases progress with
  | stayed => exact absurd rfl moved
  | ended _ done =>
      rw [isDone_eq_false shown] at done
      cases done
  | onto leftToo shownToo above =>
      cases left.symm.trans leftToo
      cases shown.symm.trans shownToo
      exact above

/-- An advance never stays on a document. -/
theorem Settled.leaves (settled : reader.Settled) (run : Reader.advance reader = .ok () after)
    (running : reader.isDone = false) : after.view ≠ reader.view := by
  intro same
  have current : after.current = reader.current := congrArg View.current same
  obtain ⟨_, _, advanced⟩ := settled.advanced run
  cases advanced with
  | ended =>
      rw [isDone, ← current] at running
      cases running
  | posting shown _ _ above =>
      exact Nat.lt_irrefl _ (above _ (settled.base _ (current ▸ shown)))

theorem Settled.leads {move : Move} (settled : reader.Settled)
    (run : move.run reader = .ok () after) : move.Leads reader.view after.view := by
  obtain ⟨_, _, progress⟩ := settled.run run
  refine ⟨fun done => congrArg view (progress.still done), fun moved old new left shown =>
    progress.ascends moved left shown, ?_, ?_⟩
  · rintro rfl running
    exact settled.leaves run running
  · rintro target rfl doc shown
    exact (settled.skipTo run).2.2.2 doc shown

/-! ## All that is shown -/

/-- The documents in view in front of some moves and behind each of them. -/
def sights (moves : List Move) (reader : Reader) : List DocId :=
  (reader.view :: (observe moves reader).map Prod.snd).filterMap View.current

/-- The documents that moves show, each once as long as the reader stays there. -/
def documents (moves : List Move) (reader : Reader) : List DocId :=
  (sights moves reader).eraseReps

theorem sights_cons {move : Move} (moves : List Move)
    (run : move.run reader = .ok () after) :
    sights (move :: moves) reader = reader.current.toList ++ sights moves after := by
  unfold sights
  rw [observe, run]
  cases shown : reader.current <;> simp [view, shown]

theorem runAll_cons {move : Move} {moves : List Move}
    (run : Move.runAll (move :: moves) reader = .ok () after) :
    ∃ middle, move.run reader = .ok () middle ∧ Move.runAll moves middle = .ok () after := by
  obtain ⟨_, middle, here, later⟩ := Step.bind_eq_ok run
  exact ⟨middle, here, later⟩

theorem Settled.runAll {moves : List Move} (settled : reader.Settled)
    (run : Move.runAll moves reader = .ok () after) : after.Settled ∧ Stays reader after := by
  induction moves generalizing reader with
  | nil =>
      cases run
      exact ⟨settled, Stays.refl _⟩
  | cons move moves induction =>
      obtain ⟨middle, here, later⟩ := runAll_cons run
      obtain ⟨settledMiddle, stays, _⟩ := settled.run here
      obtain ⟨settledAfter, staysAfter⟩ := induction settledMiddle later
      exact ⟨settledAfter, stays.trans staysAfter⟩

theorem Settled.sights_done {moves : List Move} (settled : reader.Settled)
    (run : Move.runAll moves reader = .ok () after) (done : reader.isDone = true) :
    sights moves reader = [] := by
  have hidden : reader.current = none := Option.isNone_iff_eq_none.mp done
  induction moves with
  | nil => simp [sights, observe, view, hidden]
  | cons move moves induction =>
      obtain ⟨middle, here, later⟩ := runAll_cons run
      obtain ⟨_, _, progress⟩ := settled.run here
      rw [progress.still done] at here later
      rw [sights_cons moves here, induction later, hidden]
      rfl

/-- Documents that are shown from one on, by a reader that has postings left. -/
structure Onward (reader : Reader) (docs : List DocId) : Prop where
  ascending : docs.Pairwise (· ≤ ·)
  few : docs.eraseReps.length + reader.decoded ≤ reader.layout.summary.docs + 1

theorem Settled.onward_singleton (settled : reader.Settled) (doc : DocId) :
    Onward reader [doc] := by
  have bound := settled.coherent.decoded
  refine ⟨List.pairwise_singleton _ _, ?_⟩
  change 1 + reader.decoded ≤ _
  omega

theorem Onward.again {doc : DocId} {later : List DocId} (onward : Onward reader (doc :: later)) :
    Onward reader (doc :: doc :: later) := by
  refine ⟨List.pairwise_cons.mpr ⟨?_, onward.ascending⟩, ?_⟩
  · intro other member
    rcases List.mem_cons.mp member with rfl | inside
    · exact Nat.le_refl _
    · exact (List.pairwise_cons.mp onward.ascending).1 other inside
  · rw [eraseReps_cons_cons, if_pos (BEq.refl doc)]
    exact onward.few

theorem Onward.onto {old new : DocId} {later : List DocId} (onward : Onward middle (new :: later))
    (stays : Stays reader middle) (above : old < new) (further : reader.decoded < middle.decoded) :
    Onward reader (old :: new :: later) := by
  refine ⟨List.pairwise_cons.mpr ⟨?_, onward.ascending⟩, ?_⟩
  · intro other member
    rcases List.mem_cons.mp member with rfl | inside
    · exact Nat.le_of_lt above
    · exact (Nat.le_of_lt above).trans ((List.pairwise_cons.mp onward.ascending).1 other inside)
  · have few := onward.few
    have different : (old == new) = false := by
      refine beq_eq_false_iff_ne.mpr ?_
      rintro rfl
      exact Nat.lt_irrefl _ above
    rw [eraseReps_cons_cons, different, if_neg Bool.false_ne_true, List.length_cons]
    rw [stays.layout] at few
    omega

/-- From a document on only documents behind it are shown, and no more of them than there are
postings left. -/
theorem Settled.sights_running {moves : List Move} {old : DocId} (settled : reader.Settled)
    (run : Move.runAll moves reader = .ok () after) (shown : reader.current = some old) :
    ∃ later, sights moves reader = old :: later ∧ Onward reader (old :: later) := by
  induction moves generalizing reader old with
  | nil => exact ⟨[], by simp [sights, observe, view, shown], settled.onward_singleton old⟩
  | cons move moves induction =>
      obtain ⟨middle, here, rest⟩ := runAll_cons run
      obtain ⟨settledMiddle, stays, progress⟩ := settled.run here
      rw [sights_cons moves here, shown]
      cases progress with
      | stayed =>
          obtain ⟨later, seen, onward⟩ := induction settled rest shown
          exact ⟨old :: later, by rw [seen]; rfl, onward.again⟩
      | ended _ done =>
          refine ⟨[], ?_, settled.onward_singleton old⟩
          rw [settledMiddle.sights_done rest done]
          rfl
      | @onto _ _ new left shownMiddle above further =>
          cases shown.symm.trans left
          obtain ⟨later, seen, onward⟩ := induction settledMiddle rest shownMiddle
          exact ⟨new :: later, by rw [seen]; rfl, onward.onto stays above further⟩

/-- Moves that end well show ascending documents, no more of them than the postings that were
not decoded before the first of them. -/
theorem Settled.documents {moves : List Move} (settled : reader.Settled)
    (run : Move.runAll moves reader = .ok () after) :
    (documents moves reader).Pairwise (· < ·) ∧
      (reader.isDone = false → (documents moves reader).length + reader.decoded ≤
        reader.layout.summary.docs + 1) ∧
      (reader.isDone = true → documents moves reader = []) := by
  unfold Reader.documents
  cases shown : reader.current with
  | none =>
      have done := isDone_eq_true shown
      rw [settled.sights_done run done]
      exact ⟨.nil, fun running => absurd (running.symm.trans done) Bool.false_ne_true,
        fun _ => rfl⟩
  | some old =>
      obtain ⟨later, seen, onward⟩ := settled.sights_running run shown
      have running := isDone_eq_false shown
      rw [seen]
      refine ⟨?_, fun _ => onward.few, fun done =>
        absurd (running.symm.trans done) Bool.false_ne_true⟩
      have antisymmetric : ∀ first second : DocId, first ≤ second → second ≤ first →
          first = second := fun first second below above =>
        DocId.eq_of_val_eq (Nat.le_antisymm below above)
      refine (pairwise_eraseReps antisymmetric onward.ascending).imp ?_
      intro first second ⟨below, different⟩
      exact Nat.lt_of_le_of_ne below fun same => different (DocId.eq_of_val_eq same)

/-! ## Opening -/

/-- A block that was parsed is opened on its first posting, or it is corrupt. -/
theorem open?_settled {bytes : List UInt8} {layout : Layout}
    (parsed : Layout.parse bytes = .ok layout) (withExtents : Bool) :
    (∃ cause, open? bytes withExtents = .error cause ∧ cause.kind = .corruptIndex) ∨
    ∃ reader, open? bytes withExtents = .ok reader ∧ reader.Settled ∧
      Stays (atStart layout withExtents) reader ∧
      reader.decoded = if reader.isDone then 0 else 1 := by
  have first := advance_ends (coherent_atStart (Layout.proper_of_parse parsed) withExtents).founded
  unfold open?
  rw [parsed, Step.ok_bind]
  cases run : advance (atStart layout withExtents) with
  | error cause after => exact .inl ⟨cause, rfl, first.of_error run⟩
  | ok _ reader =>
      obtain ⟨coherent, stays, advanced⟩ := first.of_ok run
      refine .inr ⟨reader, rfl, advanced.settled coherent, stays, ?_⟩
      cases advanced with
      | ended => rfl
      | posting shown _ decoded =>
          rw [isDone_eq_false shown]
          exact decoded

end Reader

end Block

end Concordance
