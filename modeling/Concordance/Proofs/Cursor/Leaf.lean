import Concordance.Cursor.Leaf
import Concordance.Proofs.Block.Skip
import Concordance.Proofs.Cursor.Guided

/-!
# Leaves over stored postings

A leaf over the block of some postings stands on the first of them at or behind
a floor.  Moving it to a position that is not below its floor keeps it so.
-/

namespace Concordance

variable {interval floor : Nat} {withExtents : Bool} {postings : List Posting}

/-- What a leaf shows of a posting. -/
def Posting.match (withExtents : Bool) (posting : Posting) : Match :=
  ⟨posting.doc, posting.count, if withExtents then posting.extents else []⟩

theorem Meaning.source_eq_none {doc : DocId}
    (elsewhere : ∀ posting ∈ postings, posting.doc ≠ doc) :
    (Meaning.source postings withExtents).found doc = none := by
  have missing : (postings.find? fun posting => posting.doc == doc) = none :=
    List.find?_eq_none.mpr fun posting member => by simpa using elsewhere posting member
  simp only [Meaning.source, missing, Option.map_none]

theorem Meaning.source_eq_match {front back : List Posting} {posting : Posting}
    (ascending : Block.Ascending (front ++ posting :: back)) :
    (Meaning.source (front ++ posting :: back) withExtents).found posting.doc =
      some (posting.match withExtents) := by
  obtain ⟨_, _, across⟩ := List.pairwise_append.mp ascending
  have first : ((front ++ posting :: back).find? fun other => other.doc == posting.doc) =
      some posting := by
    refine List.find?_eq_some_iff_append.mpr ⟨by simp, front, back, rfl, ?_⟩
    intro earlier member
    have below := across earlier member posting List.mem_cons_self
    have different : earlier.doc ≠ posting.doc := fun same =>
      Nat.lt_irrefl _ (same ▸ below : posting.doc < posting.doc)
    simpa using different
  simp only [Meaning.source, first, Option.map_some]
  rfl

namespace Leaf

/-- A leaf that stands on the first posting at or behind a floor and can be moved
to anything from there on. -/
structure At (interval : Nat) (withExtents : Bool) (postings : List Posting) (floor : Nat)
    (leaf : Leaf) : Prop where
  stored : Block.Stored interval postings
  first : Block.Reader.AtFirst interval withExtents postings floor leaf.reader
  low : leaf.reader.current ≠ none → leaf.floor.val ≤ floor

variable {leaf : Leaf}

/-- The posting on which a leaf stands is its first match. -/
theorem At.shows (here : At interval withExtents postings floor leaf) :
    ∃ current, First (Meaning.source postings withExtents).found floor current ∧
      leaf.reader.current = current.map Match.doc ∧
      (∀ found, current = some found → leaf.count = .ok found.count) ∧
      (∀ found, current = some found → withExtents = true →
        leaf.extents = .ok found.extents) := by
  cases here.first with
  | done _ _ finished below =>
      refine ⟨none, .nowhere ?_, finished, fun _ impossible => (nomatch impossible),
        fun _ impossible => (nomatch impossible)⟩
      intro doc behind
      apply Meaning.source_eq_none
      intro posting member same
      have less := below posting member
      rw [same] at less
      omega
  | stands front posting back split between shown behind below =>
      have known := Block.Reader.current_of_posting? shown
      have ascending := here.stored.encodable.ascending
      have whole : leaf.reader.count = posting.count ∧
          leaf.reader.extents = if withExtents then posting.extents else [] := by
        rw [Block.Reader.posting?, known, Option.map_some, Block.Reader.seen_of_extents] at shown
        simp only [Option.some.injEq, Posting.mk.injEq] at shown
        exact shown.2
      have running := Block.Reader.isDone_eq_false known
      subst split
      refine ⟨some (posting.match withExtents), .somewhere _ behind ?_ ?_, known, ?_, ?_⟩
      · exact Meaning.source_eq_match ascending
      · intro doc reached before
        apply Meaning.source_eq_none
        intro other member same
        subst same
        obtain ⟨_, later, _⟩ := List.pairwise_append.mp ascending
        rcases List.mem_append.mp member with inFront | inBack
        · exact absurd (below other inFront) (Nat.not_lt.mpr reached)
        · rcases List.mem_cons.mp inBack with rfl | inBack
          · exact Nat.lt_irrefl _ before
          · have above := (List.pairwise_cons.mp later).1 other inBack
            exact Nat.lt_irrefl _ (Nat.lt_trans before above)
      · rintro found same
        cases same
        rw [Leaf.count, running, if_neg Bool.false_ne_true, whole.1]
        rfl
      · rintro found same reads
        cases same
        rw [Leaf.extents, between.mode, reads, running, whole.2, reads]
        rfl

theorem At.raise (here : At interval withExtents postings floor leaf) {higher : Nat}
    (above : floor ≤ higher) (reached : ∀ doc, leaf.reader.current = some doc → higher ≤ doc.val) :
    At interval withExtents postings higher leaf := by
  refine ⟨here.stored, ?_, fun running => Nat.le_trans (here.low running) above⟩
  cases here.first with
  | done layout mode finished below =>
      exact .done layout mode finished fun posting member =>
        Nat.lt_of_lt_of_le (below posting member) above
  | stands front posting back split between shown behind below =>
      exact .stands front posting back split between shown
        (reached posting.doc (Block.Reader.current_of_posting? shown))
        fun earlier member => Nat.lt_of_lt_of_le (below earlier member) above

theorem capabilities_extents (leaf : Leaf) :
    leaf.capabilities.extents = leaf.reader.withExtents := by
  unfold capabilities
  cases leaf.reader.withExtents <;> rfl

/-! ## One move -/

theorem moveTo_done (target : DocId) (done : leaf.reader.isDone = true) :
    moveTo target leaf = .ok () leaf := by
  unfold moveTo
  rw [Step.bind_ok _ (Step.get_run _), done]
  rfl

/-- A leaf refuses to go below its floor and stays as it is. -/
theorem moveTo_refused {target : DocId} (running : leaf.reader.isDone = false)
    (below : target < leaf.floor) :
    moveTo target leaf = .error (.movedBack leaf.key target leaf.floor) leaf := by
  unfold moveTo
  rw [Step.bind_ok _ (Step.get_run _), running]
  simp only [Bool.not_false, if_true, if_pos below]
  rfl

/-- From its floor on a leaf can be moved, and the target is its floor from then on. -/
theorem moveTo_skips {target : DocId} (running : leaf.reader.isDone = false)
    (allowed : ¬target < leaf.floor) :
    moveTo target leaf =
      ((Block.Reader.skipTo target).onPart Leaf.reader fun leaf reader =>
        { leaf with reader := reader }) { leaf with floor := target } := by
  unfold moveTo
  rw [Step.bind_ok _ (Step.get_run _), running]
  simp only [Bool.not_false, if_true, if_neg allowed]
  exact Step.bind_ok _ (Step.set_run leaf { leaf with floor := target })

theorem moveTo_at (here : At interval withExtents postings floor leaf) {target : DocId}
    (above : floor ≤ target.val) :
    ∃ after, moveTo target leaf = .ok () after ∧
      At interval withExtents postings target.val after := by
  cases known : leaf.reader.current with
  | none =>
      refine ⟨leaf, moveTo_done target (Block.Reader.isDone_eq_true known), here.raise above ?_⟩
      intro doc shown
      rw [known] at shown
      cases shown
  | some doc =>
      have allowed : ¬target < leaf.floor := by
        have low := here.low (by rw [known]; exact Option.some_ne_none doc)
        rw [DocId.lt_iff]
        omega
      obtain ⟨reader, skipped, first⟩ :=
        Block.Reader.skipTo_stored here.stored here.first above
      refine ⟨{ leaf with floor := target, reader := reader }, ?_, here.stored, first,
        fun _ => Nat.le_refl _⟩
      rw [moveTo_skips (Block.Reader.isDone_eq_false known) allowed]
      exact Step.onPart_ok skipped

/-- A leaf that is asked for too little stays where it is, even if it refuses. -/
theorem moveTo_stays (here : At interval withExtents postings floor leaf) {target : DocId}
    (below : target.val < floor) :
    At interval withExtents postings floor (Step.endState (moveTo target) leaf) := by
  cases running : leaf.reader.isDone with
  | true =>
      rw [Step.endState_ok (moveTo_done target running)]
      exact here
  | false =>
      by_cases refused : target < leaf.floor
      · rw [Step.endState_error (moveTo_refused running refused)]
        exact here
      · have reached : ∀ doc, leaf.reader.current = some doc → ¬doc < target := by
          intro doc current less
          have behind := here.first.reached current
          rw [DocId.lt_iff] at less
          omega
        have run : moveTo target leaf = .ok () { leaf with floor := target } := by
          rw [moveTo_skips running refused]
          exact Step.onPart_ok (Block.Reader.skipTo_reached reached)
        rw [Step.endState_ok run]
        exact ⟨here.stored, here.first, fun _ => Nat.le_of_lt below⟩

theorem exhaust_at (here : At interval withExtents postings floor leaf) :
    At interval withExtents postings 18446744073709551616 leaf.exhaust := by
  refine ⟨here.stored, .done ?_ here.first.mode rfl fun posting _ => posting.doc.val_lt,
    fun running => absurd rfl running⟩
  exact here.first.layout

theorem open?_at (key : Key) (stored : Block.Stored interval postings) (withExtents : Bool) :
    ∃ leaf, open? key (Block.image interval postings) withExtents = .ok leaf ∧
      At interval withExtents postings 0 leaf := by
  obtain ⟨reader, opened, first⟩ := Block.Reader.open?_image stored withExtents
  refine ⟨⟨key.text, reader, DocId.zero⟩, ?_, stored, first, fun _ => Nat.le_refl _⟩
  unfold open?
  rw [opened]
  rfl

end Leaf

end Concordance
