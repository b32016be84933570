import Concordance.Proofs.Compile.Growth
import Concordance.Proofs.Cursor.Scan

/-!
# Writing and reading an index

Whatever calls a writer accepts, the file it leaves opens to an index that
hands everything out again: the keys in their order, and under each key the
documents that have extents, with their counts and extents.
-/

namespace Concordance

/-- A posting as a source shows it. -/
def Posting.shown (withExtents : Bool) (posting : Posting) : Forest.Shown :=
  ⟨posting.doc, some posting.count, if withExtents then some posting.extents else none⟩

/-- A cursor that is fresh and shows some postings when it is drained. -/
structure Forest.Hands (forest : Forest) (handle : Handle) (postings : List Posting)
    (withExtents : Bool) : Prop where
  done : forest.isDone handle = postings.isEmpty
  drained : ∃ after, drain handle none forest =
    .ok (postings.map (Posting.shown withExtents)) after

theorem Posting.shown_match (withExtents : Bool) (posting : Posting) :
    Forest.Shown.of (Meaning.source [] withExtents).capabilities (posting.match withExtents) =
      posting.shown withExtents := by
  cases withExtents <;> rfl

theorem Forest.Grown.hands {interval : Nat} {postings : List Posting} {withExtents : Bool}
    {before after : Forest} {handle : Handle} (stored : Block.Stored interval postings)
    (grown : Forest.Grown (.source postings withExtents) before handle after) :
    after.Hands handle postings withExtents := by
  have listed := Listed.source stored withExtents
  obtain ⟨matched, final, same, run⟩ := Forest.drain_lists grown.tracks
  refine ⟨?_, final, ?_⟩
  · rw [Forest.isDone_of_listed grown.tracks listed, List.isEmpty_map]
  · rw [run, same.unique listed, List.map_map]
    refine congrArg (fun shown => EStateM.Result.ok shown final) (List.map_congr_left ?_)
    exact fun posting _ => posting.shown_match withExtents

namespace Index

/-- A file that a writer made for an interval has left after some calls, within what
a machine with addresses of 64 bits can read: no memory holds the skip entries of
`2 ^ 61` bytes of postings. -/
structure Finished (interval : Nat) (calls : List Call) (format : KeyFormat)
    (written : Written) : Prop where
  accepted : ∃ writer, (Writer.new interval).callAll calls = .ok writer ∧
    writer.finish format = .ok written
  interval_lt : interval < Block.Layout.addressLimit
  extents_lt : ∀ record ∈ (Ledger.ofCalls calls).records, ∀ entry ∈ record.documents,
    entry.2.length < 4294967296
  length_lt : written.bytes.length < 2305843009213693952

/-- An index that hands out what a ledger says. -/
structure ReadsBack (ledger : Ledger) (index : Index) : Prop where
  collection : index.collection = ledger.collection
  keyCount : index.header.keyCount.toNat = ledger.keys.length
  postingsLength : index.header.postingsLength.toNat = index.postings.length
  checksum : index.header.checksum = UInt32.ofBitVec (Checksum.ofBytes index.postings)
  ascending : ledger.keys.Pairwise fun first second => first < second
  visits : ∀ steps, (KeyWalk.after index steps).key? = ledger.keys[steps]?
  contains : ∀ key, index.contains key = true ↔ key ∈ ledger.keys
  missing : ∀ key withExtents forest, key ∉ ledger.keys →
    Forest.addSource? index key withExtents forest = .ok none forest
  sources : ∀ steps key, ledger.keys[steps]? = some key →
    ∃ postings, ledger.contents key = some postings ∧ ∀ withExtents forest,
      (∃ handle grown, Forest.addSource? index key withExtents forest = .ok (some handle) grown ∧
        grown.Hands handle postings withExtents) ∧
      ∃ block handle grown, (KeyWalk.after index steps).block index = .ok (key, block) ∧
        Forest.addLeaf key block withExtents forest = .ok handle grown ∧
        grown.Hands handle postings withExtents

/-- The figures of a collection are words of 64 bits. -/
def Fits (collection : Collection) : Prop :=
  collection.length < Header.offsetLimit ∧ collection.documents < Header.offsetLimit

theorem Ledger.record_fits {ledger : Ledger} (fits : Fits ledger.collection) (request : Call) :
    Fits (ledger.record request).collection := by
  have kept : ∀ change, (ledger.onLast change).collection = ledger.collection := by
    intro change
    unfold onLast
    split <;> rfl
  cases request with
  | beginKey key => exact fits
  | beginDocument doc => exact (kept _).symm ▸ fits
  | addOccurrence position => exact (kept _).symm ▸ fits
  | addExtent extent => exact (kept _).symm ▸ fits
  | setCollection length documents => exact ⟨length.toNat_lt, documents.toNat_lt⟩

theorem Ledger.ofCalls_fits (calls : List Call) : Fits (ofCalls calls).collection := by
  have all : ∀ (ledger : Ledger), Fits ledger.collection →
      Fits (calls.foldl Ledger.record ledger).collection := by
    induction calls with
    | nil => exact fun ledger fits => fits
    | cons request calls induction =>
        exact fun ledger fits => induction _ (ledger.record_fits fits request)
  exact all empty ⟨by decide, by decide⟩

theorem Ledger.split_of_keys {ledger : Ledger} {steps : Nat} {key : Key}
    (visited : ledger.keys[steps]? = some key) :
    ∃ front record back, ledger.records.reverse = front ++ record :: back ∧
      front.length = steps ∧ record.key = key := by
  rw [Ledger.keys, ← List.map_reverse, List.getElem?_map] at visited
  obtain ⟨record, here, same⟩ := Option.map_eq_some_iff.mp visited
  obtain ⟨inside, known⟩ := List.getElem?_eq_some_iff.mp here
  refine ⟨ledger.records.reverse.take steps, record, ledger.records.reverse.drop (steps + 1),
    ?_, ?_, same⟩
  · rw [← known, ← List.drop_eq_getElem_cons inside, List.take_append_drop]
  · exact List.length_take_of_le (Nat.le_of_lt inside)

theorem Finished.addressable {interval : Nat} {calls : List Call} {format : KeyFormat}
    {written : Written} (finished : Finished interval calls format written) :
    (Ledger.ofCalls calls).InOrder ∧
      (Ledger.ofCalls calls).Addressable (max interval 1) format ∧
      written = (Ledger.ofCalls calls).written (max interval 1) format := by
  obtain ⟨writer, accepted, done⟩ := finished.accepted
  obtain ⟨inOrder, same⟩ := Writer.finish_callAll accepted format
  cases done.symm.trans same
  have interval_lt := finished.interval_lt
  simp only [Block.Layout.addressLimit] at interval_lt
  refine ⟨inOrder, ⟨by omega, ?_, finished.extents_lt, finished.length_lt⟩, rfl⟩
  simp only [Block.Layout.addressLimit]
  omega

/-- The index that a ledger's file opens to hands everything out again. -/
theorem index_readsBack {interval : Nat} {format : KeyFormat} {ledger : Ledger}
    (inOrder : ledger.InOrder) (addressable : ledger.Addressable interval format)
    (fits : Fits ledger.collection) (name : String) :
    ReadsBack ledger (ledger.index interval format name) := by
  have serves := index_serves inOrder addressable name
  have whole := length_written interval format ledger
  have limit := addressable.length_lt
  have records := length_le_length_blocksOf interval ledger.records.reverse
  have postings : (ledger.written interval format).postings =
    blocksOf interval ledger.records.reverse := rfl
  have number : ledger.keys.length = ledger.records.length := by
    rw [Ledger.keys, List.length_reverse, List.length_map]
  rw [List.length_reverse] at records
  rw [postings] at whole
  refine
    { collection := Header.ofRegions_collection _ fits.1 fits.2
      keyCount := ?_
      postingsLength := postingsLength_index addressable name
      checksum := rfl
      ascending := ?_
      visits := KeyWalk.after_key? inOrder name
      contains := contains_index inOrder name
      missing := ?_
      sources := ?_ }
  · rw [number]
    exact Header.ofRegions_keyCount (by simp only [Header.offsetLimit]; omega) _
  · rw [Ledger.keys, List.pairwise_reverse, List.pairwise_map]
    exact inOrder.keys
  · intro key withExtents forest unknown
    have added := Forest.addSource?_grown serves key withExtents forest
    rwa [contents_eq_none.mpr unknown] at added
  · intro steps key visited
    obtain ⟨front, record, back, split, rfl, rfl⟩ := Ledger.split_of_keys visited
    have member : record ∈ ledger.records :=
      List.mem_reverse.mp (split ▸ List.mem_append_right _ List.mem_cons_self)
    have stored := stored_postings inOrder addressable member
    have known := contents_eq inOrder member
    refine ⟨record.postings, known, fun withExtents forest => ⟨?_, ?_⟩⟩
    · have added := Forest.addSource?_grown serves record.key withExtents forest
      rw [known] at added
      obtain ⟨after, run, grown⟩ := added
      exact ⟨_, after, run, grown.hands stored⟩
    · obtain ⟨after, run, grown⟩ :=
        Forest.addLeaf_grown stored record.key withExtents forest
      exact ⟨_, _, after, KeyWalk.after_block inOrder addressable split name, run,
        grown.hands stored⟩

/-- An index that was opened from a file that a writer has left. -/
structure Produced (interval : Nat) (calls : List Call) (index : Index) : Prop where
  opened : ∃ format written name verify, Finished interval calls format written ∧
    format.Faithful ∧ open? ⟨name, some written.bytes⟩ verify format = .ok index

/-- A file whose length is known was left by a writer. -/
theorem finished_of_length {interval : Nat} {calls : List Call} {format : KeyFormat}
    {length : Nat} (whole : ((Writer.new interval).callAll calls >>= (·.finish format)).toOption.map
      (·.bytes.length) = some length)
    (interval_lt : interval < Block.Layout.addressLimit)
    (extents_lt : ∀ record ∈ (Ledger.ofCalls calls).records, ∀ entry ∈ record.documents,
      entry.2.length < 4294967296)
    (small : length < 2305843009213693952) :
    ∃ written, written.bytes.length = length ∧ Finished interval calls format written := by
  cases run : (Writer.new interval).callAll calls >>= (·.finish format) with
  | error cause =>
      rw [run] at whole
      cases whole
  | ok written =>
      rw [run] at whole
      have same : written.bytes.length = length := Option.some.inj whole
      obtain ⟨writer, accepted, done⟩ := Step.ok_of_bind run
      exact ⟨written, same, ⟨writer, accepted, done⟩, interval_lt, extents_lt, same ▸ small⟩

theorem Produced.of_finished {interval : Nat} {calls : List Call} {format : KeyFormat}
    {written : Written} (finished : Finished interval calls format written)
    (faithful : format.Faithful) (name : String) :
    Produced interval calls ((Ledger.ofCalls calls).index (max interval 1) format name) := by
  obtain ⟨inOrder, addressable, same⟩ := finished.addressable
  refine ⟨format, written, name, true, finished, faithful, ?_⟩
  rw [same]
  exact open?_written faithful inOrder addressable name true

/-- Such an index is the one that holds what the writer was told. -/
theorem Produced.eq_index {interval : Nat} {calls : List Call} {index : Index}
    (produced : Produced interval calls index) :
    ∃ format name, (Ledger.ofCalls calls).InOrder ∧
      (Ledger.ofCalls calls).Addressable (max interval 1) format ∧
      index = (Ledger.ofCalls calls).index (max interval 1) format name := by
  obtain ⟨format, written, name, verify, finished, faithful, opened⟩ := produced.opened
  obtain ⟨inOrder, addressable, rfl⟩ := finished.addressable
  cases opened.symm.trans (open?_written faithful inOrder addressable name verify)
  exact ⟨format, name, inOrder, addressable, rfl⟩

theorem Produced.serves {interval : Nat} {calls : List Call} {index : Index}
    (produced : Produced interval calls index) :
    index.Serves (max interval 1) (Ledger.ofCalls calls).contents := by
  obtain ⟨format, name, inOrder, addressable, rfl⟩ := produced.eq_index
  exact index_serves inOrder addressable name

/-- The file of a writer opens, and the index hands out what the writer was told. -/
theorem finished_readsBack {interval : Nat} {calls : List Call} {format : KeyFormat}
    {written : Written} (finished : Finished interval calls format written)
    (faithful : format.Faithful) (name : String) (verify : Bool) :
    ∃ index, open? ⟨name, some written.bytes⟩ verify format = .ok index ∧
      index.postings = written.postings ∧ ReadsBack (Ledger.ofCalls calls) index := by
  obtain ⟨inOrder, addressable, rfl⟩ := finished.addressable
  exact ⟨_, open?_written faithful inOrder addressable name verify, rfl,
    index_readsBack inOrder addressable (Ledger.ofCalls_fits calls) name⟩

/-- A key with the least and the greatest document and one that gets no extents, a key
without documents, and groups that were asked to be empty. -/
theorem finished_readsBack_extremes :
    let calls : List Call :=
      [.setCollection 1 1, .beginKey [97], .beginDocument DocId.zero, .addOccurrence 5,
        .addOccurrence 4294967295, .beginDocument ⟨7, by omega⟩, .beginDocument DocId.top,
        .addExtent ⟨3, 9, by omega, by omega⟩, .beginKey [98], .setCollection 40 3]
    ∃ written, Finished 0 calls KeyFormat.plain written ∧ KeyFormat.plain.Faithful ∧
      written.bytes.length = 163 ∧
      ∃ index, open? ⟨"index", some written.bytes⟩ true KeyFormat.plain = .ok index ∧
        index.postings = written.postings ∧ ReadsBack (Ledger.ofCalls calls) index := by
  intro calls
  obtain ⟨written, length, finished⟩ := @finished_of_length 0 calls KeyFormat.plain 163
    (by cbv) (by decide) (by decide) (by decide)
  exact ⟨written, finished, KeyFormat.plain_faithful, length,
    finished_readsBack finished KeyFormat.plain_faithful "index" true⟩

end Index

end Concordance
