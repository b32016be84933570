import Concordance.Proofs.Cursor.Turns
import Concordance.Proofs.Index.Aggregate

/-!
# The floor of a source

A source remembers the greatest position that it was moved to.  As long as it is not done it
refuses whatever lies below, and nothing else, and it stands on the first document from there on.
That document never lies below the floor, so asking for it again or for the next one always
succeeds.
-/

namespace Concordance

variable {interval greatest : Nat} {withExtents : Bool} {postings : List Posting}

namespace Leaf

/-- A leaf whose floor is the greatest position that it was moved to. -/
structure Exact (interval : Nat) (withExtents : Bool) (postings : List Posting) (greatest : Nat)
    (leaf : Leaf) : Prop where
  here : leaf.At interval withExtents postings greatest
  floor : leaf.reader.isDone = false → leaf.floor.val = greatest

variable {leaf : Leaf}

theorem Exact.of_done (here : leaf.At interval withExtents postings greatest)
    (done : leaf.reader.isDone = true) : leaf.Exact interval withExtents postings greatest :=
  ⟨here, fun running => absurd (running.symm.trans done) Bool.false_ne_true⟩

theorem open?_exact {key : Key} (stored : Block.Stored interval postings)
    (opened : open? key (Block.image interval postings) withExtents = .ok leaf) :
    leaf.Exact interval withExtents postings 0 := by
  obtain ⟨other, same, here⟩ := open?_at key stored withExtents
  cases opened.symm.trans same
  obtain ⟨_, _, made⟩ := Step.ok_of_bind opened
  cases made
  exact ⟨here, fun _ => rfl⟩

theorem Exact.exhaust (exact : leaf.Exact interval withExtents postings greatest) :
    leaf.exhaust.Exact interval withExtents postings (max greatest 18446744073709551616) := by
  refine .of_done ((exhaust_at exact.here).raise (Nat.le_max_right _ _) ?_) rfl
  exact fun _ impossible => nomatch impossible

/-- A leaf that is not done refuses exactly the targets below its floor. -/
theorem Exact.moveTo_cases (exact : leaf.Exact interval withExtents postings greatest)
    (target : DocId) :
    (∃ after, moveTo target leaf = .ok () after ∧
      (leaf.reader.isDone = false → greatest ≤ target.val) ∧
      after.Exact interval withExtents postings (max greatest target.val)) ∨
    (leaf.reader.isDone = false ∧ target.val < greatest ∧
      moveTo target leaf = .error (.movedBack leaf.key target leaf.floor) leaf) := by
  cases running : leaf.reader.isDone with
  | true =>
      refine .inl ⟨leaf, moveTo_done target running, fun impossible => (nomatch impossible), ?_⟩
      refine .of_done (exact.here.raise (Nat.le_max_left _ _) ?_) running
      intro doc shown
      cases running.symm.trans (Block.Reader.isDone_eq_false shown)
  | false =>
      have floor := exact.floor running
      by_cases refused : target < leaf.floor
      · exact .inr ⟨rfl, floor ▸ refused, moveTo_refused running refused⟩
      · have above : greatest ≤ target.val := floor ▸ DocId.not_lt.mp refused
        obtain ⟨after, run, there⟩ := moveTo_at exact.here above
        have skipped := (moveTo_skips running refused).symm.trans run
        obtain ⟨reader, _, rfl⟩ := Step.onPart_eq_ok skipped
        rw [Nat.max_eq_right above]
        exact .inl ⟨_, run, fun _ => above, there, fun _ => rfl⟩

theorem At.isDone_iff (here : leaf.At interval withExtents postings greatest) :
    leaf.reader.isDone = true ↔ ∀ posting ∈ postings, posting.doc.val < greatest := by
  cases here.first with
  | done _ _ finished below =>
      exact ⟨fun _ => below, fun _ => Block.Reader.isDone_eq_true finished⟩
  | stands front posting back split between shown behind below =>
      have running :=
        Block.Reader.isDone_eq_false (Block.Reader.current_of_posting? shown)
      constructor
      · intro done
        cases running.symm.trans done
      · intro every
        have member : posting ∈ postings := split ▸ List.mem_append_right _ List.mem_cons_self
        exact absurd (every posting member) (Nat.not_lt.mpr behind)

theorem At.least (here : leaf.At interval withExtents postings greatest) {doc : DocId}
    (shown : leaf.reader.current = some doc) :
    (∃ posting ∈ postings, posting.doc = doc) ∧ greatest ≤ doc.val ∧
      ∀ posting ∈ postings, greatest ≤ posting.doc.val → doc ≤ posting.doc := by
  cases here.first with
  | done _ _ finished =>
      cases shown.symm.trans finished
  | stands front posting back split between known behind below =>
      cases shown.symm.trans (Block.Reader.current_of_posting? known)
      subst split
      refine ⟨⟨posting, List.mem_append_right _ List.mem_cons_self, rfl⟩, behind, ?_⟩
      intro other member reached
      rcases List.mem_append.mp member with inFront | inBack
      · exact absurd (below other inFront) (Nat.not_lt.mpr reached)
      · rcases List.mem_cons.mp inBack with rfl | later
        · exact Nat.le_refl _
        · obtain ⟨_, ascending, _⟩ := List.pairwise_append.mp here.stored.encodable.ascending
          exact Nat.le_of_lt ((List.pairwise_cons.mp ascending).1 other later)

end Leaf

namespace Forest

variable {forest opened after : Forest} {handle : Handle}

/-- Motions of one cursor after the other, whether they succeed or fail, with the greatest position
to which one of them succeeded. -/
inductive Asked (handle : Handle) (opened : Forest) : Nat → Forest → Prop where
  | still : Asked handle opened 0 opened
  | accepted {greatest : Nat} {forest after : Forest} (asked : Asked handle opened greatest forest)
      (motion : Motion) (run : motion.run handle forest = .ok () after) :
      Asked handle opened (max greatest motion.position) after
  | refused {greatest : Nat} {forest after : Forest} (asked : Asked handle opened greatest forest)
      (motion : Motion) {cause : Error} (run : motion.run handle forest = .error cause after) :
      Asked handle opened greatest after

/-- A source whose floor is the greatest position that it was moved to. -/
structure Exact (forest : Forest) (handle : Handle) (interval : Nat) (withExtents : Bool)
    (postings : List Posting) (greatest : Nat) : Prop where
  bound : handle.index < forest.cursors.size
  here : ∃ leaf, forest.cursor handle = .leaf leaf ∧
    leaf.Exact interval withExtents postings greatest

/-- Whether a motion of a source succeeds, and what becomes of the floor. -/
theorem Exact.run_cases (exact : Exact forest handle interval withExtents postings greatest)
    (motion : Motion) :
    (∃ after, motion.run handle forest = .ok () after ∧
      (forest.isDone handle = false → greatest ≤ motion.position) ∧
      Exact after handle interval withExtents postings (max greatest motion.position)) ∨
    (forest.isDone handle = false ∧ motion.position < greatest ∧
      ∃ cause, motion.run handle forest = .error cause forest ∧
        cause.kind = .invalidCursorState) := by
  obtain ⟨bound, leaf, here, holds⟩ := exact
  have put_exact {later : Leaf} {position : Nat}
      (there : later.Exact interval withExtents postings position) :
      Exact (forest.put handle (.leaf later)) handle interval withExtents postings position :=
    ⟨(size_put ..).symm ▸ bound, later, cursor_put_self bound _, there⟩
  have moves (target : DocId) :
      (∃ after, moveTo handle target forest = .ok () after ∧
        (forest.isDone handle = false → greatest ≤ target.val) ∧
        Exact after handle interval withExtents postings (max greatest target.val)) ∨
      (forest.isDone handle = false ∧ target.val < greatest ∧
        ∃ cause, moveTo handle target forest = .error cause forest ∧
          cause.kind = .invalidCursorState) := by
    rw [isDone_leaf here, moveTo, moveWithin_leaf target here]
    rcases holds.moveTo_cases target with ⟨after, run, reached, there⟩ | ⟨running, below, run⟩
    · rw [run]
      exact .inl ⟨_, rfl, reached, put_exact there⟩
    · rw [run]
      dsimp only
      rw [put_self here bound]
      exact .inr ⟨running, below, _, rfl, rfl⟩
  cases motion with
  | moveTo target => exact moves target
  | movePast doc =>
      rw [Motion.run, movePast, Motion.position]
      cases ahead : doc.next? with
      | some next => exact DocId.next?_eq_some.mp ahead ▸ moves next
      | none =>
          cases DocId.next?_eq_none.mp ahead
          refine .inl ⟨forest.exhaust handle, rfl, fun running => ?_, ?_⟩
          · rw [isDone_leaf here] at running
            rw [← holds.floor running]
            exact Nat.le_of_lt leaf.floor.val_lt
          · rw [exhaust_leaf here]
            exact put_exact holds.exhaust

theorem Asked.exact (asked : Asked handle opened greatest forest)
    (exact : Exact opened handle interval withExtents postings 0) :
    Exact forest handle interval withExtents postings greatest := by
  induction asked with
  | still => exact exact
  | accepted asked motion run induction =>
      rcases induction.run_cases motion with ⟨_, ran, _, there⟩ | ⟨_, _, _, failed, _⟩
      · cases run.symm.trans ran
        exact there
      · cases run.symm.trans failed
  | refused asked motion run induction =>
      rcases induction.run_cases motion with ⟨_, ran, _⟩ | ⟨_, _, _, failed, _⟩
      · cases run.symm.trans ran
      · cases run.symm.trans failed
        exact induction

end Forest

namespace Index

variable {calls : List Call} {index : Index} {key : Key} {before after : Forest} {handle : Handle}

/-- Both ways to open a source of a key lead to a leaf over the block of its postings. -/
theorem Produced.opens_exact (produced : Produced interval calls index)
    (held : (Ledger.ofCalls calls).contents key = some postings)
    (opens : index.Opens key withExtents before handle after) :
    Forest.Exact after handle (max interval 1) withExtents postings 0 := by
  obtain ⟨stored, present⟩ := produced.serves.present key postings held
  obtain ⟨leaf, opened, _⟩ := Leaf.open?_at key stored withExtents
  have added := Forest.addLeaf_run opened before
  have same : handle = ⟨before.cursors.size⟩ ∧ after = before.push (.leaf leaf) := by
    rcases opens with found | ⟨steps, block, stands, found⟩
    · cases (Forest.addSource?_held present added).symm.trans found
      exact ⟨rfl, rfl⟩
    · cases produced.holding key with
      | nothing _ _ unvisited => exact absurd stands (unvisited steps block)
      | block _ _ _ alsoPresent visited =>
          have same := Option.some.inj (Except.ok.inj (alsoPresent.symm.trans present))
          rw [visited steps block stands, same] at found
          cases added.symm.trans found
          exact ⟨rfl, rfl⟩
  obtain ⟨rfl, rfl⟩ := same
  exact ⟨Forest.lt_size_push before _, leaf, Forest.cursor_push_self before _,
    Leaf.open?_exact stored opened⟩

/-- A source of a key that was written, with or without extents, after any motions, of which some
may have failed: it refuses exactly the positions below the greatest one that it accepted, unless
it is done, and a refusal changes nothing.  It is done where no document is left from that position
on, and stands on the least such document otherwise. -/
theorem source_floor (produced : Produced interval calls index)
    (held : (Ledger.ofCalls calls).contents key = some postings) (withExtents : Bool)
    (before : Forest) :
    (∃ handle opened, index.Opens key withExtents before handle opened) ∧
    ∀ handle opened, index.Opens key withExtents before handle opened →
      ∀ greatest forest, Forest.Asked handle opened greatest forest →
        (∀ motion : Forest.Motion,
          ((∃ cause failed, motion.run handle forest = .error cause failed) ↔
            forest.isDone handle = false ∧ motion.position < greatest) ∧
          ∀ cause failed, motion.run handle forest = .error cause failed →
            cause.kind = .invalidCursorState ∧ failed = forest) ∧
        (forest.isDone handle = true ↔ ∀ posting ∈ postings, posting.doc.val < greatest) ∧
        ∀ doc, forest.candidate handle = .ok doc →
          ((∃ posting ∈ postings, posting.doc = doc) ∧ greatest ≤ doc.val ∧
            ∀ posting ∈ postings, greatest ≤ posting.doc.val → doc ≤ posting.doc) ∧
          ∀ motion : Forest.Motion, doc.val ≤ motion.position →
            ∃ after, motion.run handle forest = .ok () after := by
  constructor
  · obtain ⟨stored, present⟩ := produced.serves.present key postings held
    obtain ⟨after, added, _⟩ := Forest.addLeaf_grown stored key withExtents before
    exact ⟨_, after, .inl (Forest.addSource?_held present added)⟩
  intro handle opened opens greatest forest asked
  have stands := asked.exact (produced.opens_exact held opens)
  obtain ⟨leaf, here, holds⟩ := stands.here
  refine ⟨fun motion => ?_, ?_, fun doc shown => ?_⟩
  · rcases stands.run_cases motion with
      ⟨after, run, reached, _⟩ | ⟨running, below, cause, run, kind⟩
    · refine ⟨⟨?_, ?_⟩, ?_⟩
      · rintro ⟨cause, failed, impossible⟩
        cases run.symm.trans impossible
      · rintro ⟨running, below⟩
        exact absurd below (Nat.not_lt.mpr (reached running))
      · intro cause failed impossible
        cases run.symm.trans impossible
    · refine ⟨⟨fun _ => ⟨running, below⟩, fun _ => ⟨cause, forest, run⟩⟩, ?_⟩
      intro other failed same
      cases run.symm.trans same
      exact ⟨kind, rfl⟩
  · rw [Forest.isDone_leaf here]
    exact holds.here.isDone_iff
  · have current : leaf.reader.current = some doc := by
      rw [← Forest.position_leaf here]
      exact Forest.position_of_candidate shown
    have least := holds.here.least current
    refine ⟨least, fun motion above => ?_⟩
    rcases stands.run_cases motion with ⟨after, run, _⟩ | ⟨_, below, _⟩
    · exact ⟨after, run⟩
    · have reached := least.2.1
      omega

/-- A source that was moved between its two documents refuses to go back before that place and can
be moved past the second one. -/
theorem source_floor_between :
    let key : Key := [97]
    Produced 1 Example.calls Example.index ∧
      (Ledger.ofCalls Example.calls).contents key =
        some [⟨Example.first, 2, [.ofNats 0 1, .ofNats 4 5]⟩, ⟨Example.second, 1, [.ofNats 2 3]⟩] ∧
      ∃ handle opened forest, Example.index.Opens key true Forest.empty handle opened ∧
        Forest.Asked handle opened 3 forest ∧ forest.candidate handle = .ok Example.second ∧
        (∃ cause, Forest.moveTo handle Example.first forest = .error cause forest ∧
          cause.kind = .invalidCursorState) ∧
        ∃ after, Forest.movePast handle Example.second forest = .ok () after := by
  intro key
  have held : (Ledger.ofCalls Example.calls).contents key =
      some [⟨Example.first, 2, [.ofNats 0 1, .ofNats 4 5]⟩,
        ⟨Example.second, 1, [.ofNats 2 3]⟩] := by cbv
  refine ⟨Example.produced, held, ?_⟩
  let between : DocId := ⟨3, by omega⟩
  have runs : Step.evaluate (do
      let found ← Forest.addSource? Example.index key true
      let handle := found.getD ⟨0⟩
      Forest.moveTo handle between
      let forest ← get
      pure (found.isSome, forest.position handle)) Forest.empty =
        .ok (true, some Example.second) := by cbv
  obtain ⟨_, run⟩ := Step.evaluate_eq_ok runs
  obtain ⟨found, opened, added, run⟩ := Step.bind_eq_ok run
  obtain ⟨_, forest, moved, run⟩ := Step.bind_eq_ok run
  injection run with outcome
  obtain ⟨isSome, shown⟩ := Prod.mk.inj outcome
  obtain ⟨handle, rfl⟩ := Option.isSome_iff_exists.mp isSome
  rw [Option.getD_some] at shown
  have opens : Example.index.Opens key true Forest.empty handle opened := .inl added
  have asked : Forest.Asked handle opened 3 forest := .accepted .still (.moveTo between) moved
  have stands : forest.candidate handle = .ok Example.second := by
    rw [Forest.candidate, shown]
  obtain ⟨refuses, _, current⟩ :=
    (source_floor Example.produced held true Forest.empty).2 handle opened opens 3 forest asked
  have running : forest.isDone handle = false := by
    rw [Forest.isDone, shown]
    rfl
  obtain ⟨cause, failed, refused⟩ :=
    (refuses (.moveTo Example.first)).1.mpr ⟨running, by decide⟩
  obtain ⟨kind, rfl⟩ := (refuses (.moveTo Example.first)).2 cause failed refused
  exact ⟨handle, opened, failed, opens, asked, stands, ⟨cause, refused, kind⟩,
    (current Example.second stands).2 (.movePast Example.second) (Nat.le_succ _)⟩

end Index

end Concordance
