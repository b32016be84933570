import Concordance.Proofs.Compile.Evaluation
import Concordance.Proofs.Cursor.Calls
import Concordance.Proofs.Index.RoundTrip
import Concordance.Proofs.Session.Figures

/-!
# Figures without a scan

The head of a block says in how many documents its key occurs, how often in all of them and how
often in one at most.  The writer adds these figures up posting by posting, and a scan adds up
the same ones.  A source gives them wherever it stands.
-/

namespace Concordance

variable {interval : Nat} {withExtents : Bool} {postings : List Posting} {key : String}
  {collection : Collection}

/-! ## The summary of a block -/

/-- The figures that a summary gives. -/
def Block.Summary.figures (summary : Summary) (key : String) (collection : Collection) :
    Statistics :=
  ⟨key, summary.total, summary.docs, summary.largest, collection⟩

/-- A posting with its count. -/
def Posting.counted (posting : Posting) : DocId × Nat := (posting.doc, posting.count)

/-- A summary holds the figures of its postings. -/
theorem Statistics.of_postings (wellFormed : ∀ posting ∈ postings, posting.WellFormed) :
    of key collection (postings.map Posting.counted) =
      (Block.Summary.of postings).figures key collection := by
  have counts : (postings.map Posting.counted).map Prod.snd =
      postings.map fun posting => posting.extents.length := by
    rw [List.map_map]
    exact List.map_congr_left fun posting member => (wellFormed posting member).counted
  simp only [of, counts, Block.Summary.figures, Block.Summary.of, List.length_map]

theorem Block.Stored.total_lt (stored : Block.Stored interval postings) :
    (Block.Summary.of postings).total < Statistics.counterLimit := by
  have bytes := Block.total_le_length_extentBytes postings
  have part := Block.length_body_le interval postings
  have whole := stored.storable.length_lt
  rw [Block.length_body] at part
  simp only [Block.Layout.addressLimit] at whole
  simp only [Statistics.counterLimit]
  omega

/-- The counters hold what a scan of a block adds up, and it is what the summary says. -/
theorem Block.Stored.addMatches (stored : Block.Stored interval postings) :
    (Statistics.new key collection).addMatches (postings.map Posting.counted) =
      .ok ((Block.Summary.of postings).figures key collection) := by
  have wellFormed := stored.encodable.wellFormed
  have same := @Statistics.of_postings postings key collection wellFormed
  have total := stored.total_lt
  have documents := Block.docs_le_total fun posting member => (wellFormed posting member).occurs
  rw [← same]
  refine Statistics.addMatches_of [] _ ?_ ?_
  · rw [List.nil_append, same]
    exact total
  · rw [List.nil_append, same]
    exact Nat.lt_of_le_of_lt documents total

/-! ## Leaves over the postings of a key -/

namespace Leaf

/-- A leaf that reads the block of some postings under a key, wherever it stands. -/
structure Reads (interval : Nat) (withExtents : Bool) (postings : List Posting) (key : String)
    (leaf : Leaf) : Prop where
  key : leaf.key = key
  stands : ∃ floor, leaf.At interval withExtents postings floor

variable {leaf : Leaf}

theorem key_moveTo (leaf : Leaf) (target : DocId) :
    (Step.endState (moveTo target) leaf).key = leaf.key := by
  cases running : leaf.reader.isDone with
  | true => rw [Step.endState_ok (moveTo_done target running)]
  | false =>
      by_cases refused : target < leaf.floor
      · rw [Step.endState_error (moveTo_refused running refused)]
      · rw [Step.endState, moveTo_skips running refused, Step.onPart]
        cases Block.Reader.skipTo target leaf.reader <;> rfl

/-- A leaf gives the figures of its block. -/
theorem Reads.statistics (reads : leaf.Reads interval withExtents postings key) :
    leaf.statistics collection = (Block.Summary.of postings).figures key collection := by
  obtain ⟨rfl, _, stands⟩ := reads
  unfold Leaf.statistics Block.Reader.summary
  rw [stands.first.layout]
  rfl

theorem Reads.moveTo (reads : leaf.Reads interval withExtents postings key) (target : DocId) :
    (Step.endState (moveTo target) leaf).Reads interval withExtents postings key := by
  obtain ⟨same, floor, stands⟩ := reads
  refine ⟨(key_moveTo leaf target).trans same, ?_⟩
  by_cases below : target.val < floor
  · exact ⟨floor, moveTo_stays stands below⟩
  · obtain ⟨after, run, there⟩ := moveTo_at stands (Nat.not_lt.mp below)
    rw [Step.endState_ok run]
    exact ⟨target.val, there⟩

theorem Reads.exhaust (reads : leaf.Reads interval withExtents postings key) :
    leaf.exhaust.Reads interval withExtents postings key :=
  ⟨reads.key, reads.stands.elim fun _ stands => ⟨_, exhaust_at stands⟩⟩

end Leaf

namespace Forest

variable {forest after : Forest} {handle : Handle} {leaf : Leaf}

theorem endState_moveTo_leaf (here : forest.cursor handle = .leaf leaf) (target : DocId) :
    Step.endState (moveTo handle target) forest =
      forest.put handle (.leaf (Step.endState (Leaf.moveTo target) leaf)) := by
  unfold Step.endState
  rw [moveTo, moveWithin_leaf target here]
  cases Leaf.moveTo target leaf <;> rfl

theorem exhaust_leaf (here : forest.cursor handle = .leaf leaf) :
    forest.exhaust handle = forest.put handle (.leaf leaf.exhaust) := by
  rw [exhaust, exhaustWithin, here]

/-- A call on a leaf moves the leaf or ends it. -/
theorem Call.endState_leaf (here : forest.cursor handle = .leaf leaf) (call : Call) :
    ∃ later, Step.endState (call.run handle) forest = forest.put handle (.leaf later) ∧
      (later = leaf.exhaust ∨ ∃ target, later = Step.endState (Leaf.moveTo target) leaf) := by
  cases call with
  | exhaust => exact ⟨_, exhaust_leaf here, .inl rfl⟩
  | move motion =>
      cases motion with
      | moveTo target => exact ⟨_, endState_moveTo_leaf here target, .inr ⟨target, rfl⟩⟩
      | movePast doc =>
          rw [run, Motion.run, movePast]
          cases doc.next? with
          | none => exact ⟨_, exhaust_leaf here, .inl rfl⟩
          | some next => exact ⟨_, endState_moveTo_leaf here next, .inr ⟨next, rfl⟩⟩

/-- A source of some postings under a key. -/
structure Sources (forest : Forest) (handle : Handle) (interval : Nat) (withExtents : Bool)
    (postings : List Posting) (key : String) : Prop where
  bound : handle.index < forest.cursors.size
  here : ∃ leaf, forest.cursor handle = .leaf leaf ∧
    leaf.Reads interval withExtents postings key

theorem Sources.call (sources : Sources forest handle interval withExtents postings key)
    (call : Call) :
    Sources (Step.endState (call.run handle) forest) handle interval withExtents postings key := by
  obtain ⟨bound, leaf, here, reads⟩ := sources
  obtain ⟨later, same, moved⟩ := call.endState_leaf here
  rw [same]
  refine ⟨(size_put ..).symm ▸ bound, later, cursor_put_self bound _, ?_⟩
  rcases moved with rfl | ⟨target, rfl⟩
  · exact reads.exhaust
  · exact reads.moveTo target

/-- Whatever a source is asked for, it remains a source of the same postings. -/
theorem Sources.called {bears : Error → Prop}
    (sources : Sources forest handle interval withExtents postings key)
    (called : Called handle bears forest after) :
    Sources after handle interval withExtents postings key := by
  induction called with
  | still => exact sources
  | again called call bearable induction => exact induction.call call

theorem Sources.statistics (sources : Sources forest handle interval withExtents postings key) :
    (forest.cursor handle).statistics? collection =
      some ((Block.Summary.of postings).figures key collection) := by
  obtain ⟨_, leaf, here, reads⟩ := sources
  rw [here]
  exact congrArg some reads.statistics

/-- A leaf over a block is a source, and a scan of it finds all its postings. -/
theorem addLeaf_sources (stored : Block.Stored interval postings) (key : Key)
    (withExtents : Bool) (forest : Forest) :
    ∃ after, addLeaf key (Block.image interval postings) withExtents forest =
        .ok ⟨forest.cursors.size⟩ after ∧
      Sources after ⟨forest.cursors.size⟩ interval withExtents postings key.text ∧
      ∃ drained, scan ⟨forest.cursors.size⟩ after =
        .ok (postings.map Posting.counted) drained := by
  obtain ⟨leaf, opened, stands⟩ := Leaf.open?_at key stored withExtents
  have named : leaf.key = key.text := by
    unfold Leaf.open? at opened
    obtain ⟨_, _, same⟩ := Step.ok_of_bind opened
    cases same
    rfl
  have tracks := (grown_leaf forest stands).tracks
  have counts : (Meaning.source postings withExtents).capabilities.count = true := by
    cases withExtents <;> rfl
  obtain ⟨matched, drained, listed, run⟩ := tracks_follows.scan_lists tracks counts
  have every := listed.unique (Listed.source stored withExtents)
  refine ⟨_, addLeaf_run opened forest, ⟨lt_size_push forest _, leaf, cursor_push_self forest _,
    named, 0, stands⟩, drained, ?_⟩
  rw [run, every, List.map_map]
  rfl

end Forest

namespace Index

/-- The two ways to open a source: under a key, or where a walk over the keys stands. -/
def Opens (index : Index) (key : Key) (withExtents : Bool) (before : Forest) (handle : Handle)
    (after : Forest) : Prop :=
  Forest.addSource? index key withExtents before = .ok (some handle) after ∨
    ∃ steps block, (KeyWalk.after index steps).block index = .ok (key, block) ∧
      Forest.addLeaf key block withExtents before = .ok handle after

variable {calls : List Call} {index : Index} {key : Key} {withExtents : Bool} {before : Forest}

/-- What an index that a writer left holds under a key. -/
inductive Holding (index : Index) (interval : Nat) (key : Key) : Prop where
  | nothing (unknown : index.contains key = false) (none : index.block? key = .ok none)
      (unvisited : ∀ steps block, (KeyWalk.after index steps).block index ≠ .ok (key, block))
  | block (postings : List Posting) (known : index.contains key = true)
      (stored : Block.Stored interval postings)
      (held : index.block? key = .ok (some (Block.image interval postings)))
      (visited : ∀ steps block, (KeyWalk.after index steps).block index = .ok (key, block) →
        block = Block.image interval postings)

theorem KeyWalk.key?_of_block {walk : KeyWalk} {block : List UInt8}
    (stands : walk.block index = .ok (key, block)) : walk.key? = some key := by
  unfold KeyWalk.block at stands
  unfold KeyWalk.key?
  cases current : walk.current with
  | none =>
      rw [current] at stands
      cases stands
  | some entry =>
      rw [current] at stands
      dsimp only at stands
      cases read : index.blockAt entry.1 entry.2 with
      | error cause =>
          rw [read] at stands
          cases stands
      | ok bytes =>
          rw [read] at stands
          cases stands
          rfl

theorem Produced.holding (produced : Produced interval calls index) (key : Key) :
    index.Holding (max interval 1) key := by
  have serves := produced.serves
  obtain ⟨format, name, inOrder, addressable, rfl⟩ := produced.eq_index
  have contains := @contains_index (max interval 1) format _ inOrder name key
  have visits := @KeyWalk.after_key? (max interval 1) format _ inOrder name
  cases held : (Ledger.ofCalls calls).contents key with
  | none =>
      have absent := contents_eq_none.mp held
      refine .nothing (Bool.eq_false_iff.mpr fun known => absent (contains.mp known))
        (serves.missing key held) ?_
      intro steps block stands
      have visited := (visits steps).symm.trans (KeyWalk.key?_of_block stands)
      exact absent (List.mem_of_getElem? visited)
  | some postings =>
      obtain ⟨stored, block⟩ := serves.present key postings held
      have present : key ∈ (Ledger.ofCalls calls).keys := by
        by_contra absent
        rw [contents_eq_none.mpr absent] at held
        cases held
      refine .block postings (contains.mpr present) stored block ?_
      intro steps block stands
      have visited := (visits steps).symm.trans (KeyWalk.key?_of_block stands)
      obtain ⟨front, record, back, split, rfl, rfl⟩ := Ledger.split_of_keys visited
      have member : record ∈ (Ledger.ofCalls calls).records :=
        List.mem_reverse.mp (split ▸ List.mem_append_right _ List.mem_cons_self)
      cases (contents_eq inOrder member).symm.trans held
      cases stands.symm.trans (KeyWalk.after_block inOrder addressable split name)
      rfl

/-- The sources of a key that an index has give what a scan of any fresh one of them adds up,
wherever they stand.  A key that the index does not have has no source. -/
theorem source_statistics (produced : Produced interval calls index) (key : Key)
    (collection : Collection) :
    (index.contains key = false ∧
      ∀ withExtents before handle after, ¬index.Opens key withExtents before handle after) ∨
    (index.contains key = true ∧ ∃ figures : Statistics,
      (∀ withExtents before, ∃ handle after,
        Forest.addSource? index key withExtents before = .ok (some handle) after) ∧
      ∀ withExtents before handle after, index.Opens key withExtents before handle after →
        (∃ found drained, Forest.scan handle after = .ok found drained ∧
          (Statistics.new key.text collection).addMatches found = .ok figures) ∧
        ∀ moved, Forest.Called handle (fun _ => True) after moved →
          (moved.cursor handle).statistics? collection = some figures) := by
  cases produced.holding key with
  | nothing unknown none unvisited =>
      refine .inl ⟨unknown, ?_⟩
      rintro withExtents before handle after (opened | ⟨steps, block, stands, _⟩)
      · cases (Forest.addSource?_missing none withExtents before).symm.trans opened
      · exact unvisited steps block stands
  | block postings known stored held visited =>
      refine .inr ⟨known, (Block.Summary.of postings).figures key.text collection, ?_, ?_⟩
      · intro withExtents before
        obtain ⟨after, added, _⟩ := Forest.addLeaf_sources stored key withExtents before
        exact ⟨⟨before.cursors.size⟩, after, Forest.addSource?_held held added⟩
      · intro withExtents before handle after opens
        obtain ⟨grown, added, sources, drained, scanned⟩ :=
          Forest.addLeaf_sources stored key withExtents before
        have same : handle = ⟨before.cursors.size⟩ ∧ after = grown := by
          rcases opens with opened | ⟨steps, block, stands, opened⟩
          · cases (Forest.addSource?_held held added).symm.trans opened
            exact ⟨rfl, rfl⟩
          · cases visited steps block stands
            cases added.symm.trans opened
            exact ⟨rfl, rfl⟩
        obtain ⟨rfl, rfl⟩ := same
        refine ⟨⟨_, drained, scanned, stored.addMatches⟩, ?_⟩
        exact fun moved called => (sources.called called).statistics

/-- A key that stands twice in its first document and once in its last one. -/
theorem source_statistics_first :
    let key : Key := [97]
    let figures : Statistics := ⟨"a", 3, 2, 2, Collection.empty⟩
    Produced 1 Example.calls Example.index ∧ Example.index.contains key = true ∧
      ∀ withExtents before, ∃ handle after,
        Forest.addSource? Example.index key withExtents before = .ok (some handle) after ∧
        (∃ found drained, Forest.scan handle after = .ok found drained ∧
          (Statistics.new key.text Collection.empty).addMatches found = .ok figures) ∧
        ∀ moved, Forest.Called handle (fun _ => True) after moved →
          (moved.cursor handle).statistics? Collection.empty = some figures := by
  intro key figures
  rcases source_statistics Example.produced key Collection.empty with ⟨unknown, _⟩ |
    ⟨known, sums, opens, agree⟩
  · have known : Example.index.contains key = true := by cbv
    rw [known] at unknown
    cases unknown
  · have shown : Step.evaluate (do
        let found ← Forest.addSource? Example.index key false
        let forest ← get
        pure (found.bind fun handle =>
          (forest.cursor handle).statistics? Collection.empty)) Forest.empty =
        .ok (some figures) := by cbv
    obtain ⟨_, run⟩ := Step.evaluate_eq_ok shown
    obtain ⟨found, after, opened, run⟩ := Step.bind_eq_ok run
    obtain ⟨handle, same⟩ : ∃ handle, found = some handle := by
      cases found with
      | none => cases run
      | some handle => exact ⟨handle, rfl⟩
    subst same
    injection run with there
    have fresh := (agree false Forest.empty handle after (.inl opened)).2 after .still
    cases there.symm.trans fresh
    refine ⟨Example.produced, known, fun withExtents before => ?_⟩
    obtain ⟨handle, after, opened⟩ := opens withExtents before
    exact ⟨handle, after, opened, agree withExtents before handle after (.inl opened)⟩

end Index

end Concordance
