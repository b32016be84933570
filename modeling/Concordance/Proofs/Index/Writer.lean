import Concordance.Proofs.Index.Ledger

/-!
# What a writer keeps

A writer holds what its ledger says: the blocks of the keys that are closed, in
the file or still in the buffer, the block of the open key without the open
document, and that document.  Every accepted call keeps this, so the finished
file is fixed by the ledger, whenever the buffer went to the file.
-/

namespace Concordance

namespace Index

/-- The blocks of some records, in the order of their keys. -/
def blocksOf (interval : Nat) (records : List Record) : List UInt8 :=
  records.flatMap fun record => Block.image interval record.postings

/-- The entries of some records whose first block starts at an offset. -/
def entriesFrom (interval : Nat) : Nat → List Record → List (Key × Nat)
  | _, [] => []
  | offset, record :: records =>
    (record.key, offset) ::
      entriesFrom interval (offset + (Block.image interval record.postings).length) records

theorem blocksOf_append (interval : Nat) (front back : List Record) :
    blocksOf interval (front ++ back) = blocksOf interval front ++ blocksOf interval back :=
  List.flatMap_append

theorem blocksOf_cons (interval : Nat) (record : Record) (records : List Record) :
    blocksOf interval (record :: records) =
      Block.image interval record.postings ++ blocksOf interval records := List.flatMap_cons

theorem blocksOf_singleton (interval : Nat) (record : Record) :
    blocksOf interval [record] = Block.image interval record.postings := List.flatMap_singleton ..

theorem entriesFrom_append (interval offset : Nat) (front back : List Record) :
    entriesFrom interval offset (front ++ back) =
      entriesFrom interval offset front ++
        entriesFrom interval (offset + (blocksOf interval front).length) back := by
  induction front generalizing offset with
  | nil => rfl
  | cons record front induction =>
      rw [List.cons_append, entriesFrom, entriesFrom, induction, blocksOf_cons,
        List.length_append, Nat.add_assoc, List.cons_append]

theorem keys_entriesFrom (interval offset : Nat) (records : List Record) :
    (entriesFrom interval offset records).map Prod.fst = records.map Record.key := by
  induction records generalizing offset with
  | nil => rfl
  | cons record records induction =>
      rw [entriesFrom, List.map_cons, List.map_cons, induction]

/-! ## The invariant -/

namespace Writer

/-- The blocks of some records, the last one first, are those of closed keys. -/
structure Gathered (interval : Nat) (records : List Record) (writer : Writer) : Prop where
  bytes : (writer.stored ++ writer.buffer).toList = blocksOf interval records.reverse
  register : writer.register =
    Checksum.absorbAll Checksum.start (blocksOf interval records.reverse)
  length : writer.postingsLength = (blocksOf interval records.reverse).length

/-- A writer that was made for an interval holds what a ledger says. -/
structure Holds (interval : Nat) (ledger : Ledger) (writer : Writer) : Prop where
  spacing : writer.interval = interval
  collection : writer.collection = ledger.collection
  keys : writer.keys.toList = entriesFrom (max interval 1) 0 ledger.records.reverse
  lastKey : writer.lastKey = ledger.records.head?.map Record.key
  gathered : Gathered (max interval 1) ledger.records.tail writer
  block : writer.block = ledger.records.head?.map fun record =>
    Block.Builder.of (max interval 1) (postingsOf record.documents.tail)
  document : writer.document = ledger.records.head?.bind fun record => record.documents.head?
  lastDoc : writer.lastDoc = writer.document.map Prod.fst

/-- A writer whose last key is closed too. -/
structure Rests (interval : Nat) (ledger : Ledger) (writer : Writer) : Prop where
  spacing : writer.interval = interval
  collection : writer.collection = ledger.collection
  keys : writer.keys.toList = entriesFrom (max interval 1) 0 ledger.records.reverse
  gathered : Gathered (max interval 1) ledger.records writer
  document : writer.document = none

theorem new_holds (interval : Nat) : Holds interval Ledger.empty (new interval) :=
  ⟨rfl, rfl, rfl, rfl, ⟨rfl, rfl, rfl⟩, rfl, rfl, rfl⟩

variable {interval : Nat} {ledger : Ledger} {writer : Writer}

namespace Holds

variable {record : Record} {earlier : List Record}

theorem opened_block (holds : Holds interval ledger writer)
    (opened : ledger.records = record :: earlier) :
    writer.block =
      some (Block.Builder.of (max interval 1) (postingsOf record.documents.tail)) := by
  rw [holds.block, opened]
  rfl

theorem opened_document (holds : Holds interval ledger writer)
    (opened : ledger.records = record :: earlier) :
    writer.document = record.documents.head? := by
  rw [holds.document, opened]
  rfl

theorem blank_block (holds : Holds interval ledger writer) (blank : ledger.records = []) :
    writer.block = none := by
  rw [holds.block, blank]
  rfl

theorem blank_document (holds : Holds interval ledger writer) (blank : ledger.records = []) :
    writer.document = none := by
  rw [holds.document, blank]
  rfl

theorem opened_of_block (holds : Holds interval ledger writer) (begun : writer.block.isNone = false) :
    ∃ record earlier, ledger.records = record :: earlier := by
  cases opened : ledger.records with
  | nil =>
      rw [holds.blank_block opened] at begun
      cases begun
  | cons record earlier => exact ⟨record, earlier, rfl⟩

theorem opened_of_document (holds : Holds interval ledger writer) {entry : DocId × List Extent}
    (begun : writer.document = some entry) :
    ∃ record earlier, ledger.records = record :: earlier := by
  cases opened : ledger.records with
  | nil =>
      rw [holds.blank_document opened] at begun
      cases begun
  | cons record earlier => exact ⟨record, earlier, rfl⟩

/-- A call within the open key changes the last record and what the writer holds
of it. -/
theorem onLast (holds : Holds interval ledger writer) {change : Record → Record}
    (opened : ledger.records = record :: earlier) (key : (change record).key = record.key) :
    Holds interval (ledger.onLast change)
      { writer with
        block :=
          some (Block.Builder.of (max interval 1) (postingsOf (change record).documents.tail))
        document := (change record).documents.head?
        lastDoc := (change record).documents.head?.map Prod.fst } := by
  have keys := holds.keys
  have lastKey := holds.lastKey
  have gathered := holds.gathered
  rw [opened] at keys lastKey gathered
  have changed : ledger.onLast change = ⟨change record :: earlier, ledger.collection⟩ := by
    rw [Ledger.onLast, opened]
  rw [changed]
  refine ⟨holds.spacing, holds.collection, ?_, ?_,
    ⟨gathered.bytes, gathered.register, gathered.length⟩, rfl, rfl, rfl⟩
  · rw [List.reverse_cons, entriesFrom_append] at keys ⊢
    rw [entriesFrom, key]
    exact keys
  · rw [List.head?_cons, Option.map_some, key]
    exact lastKey

end Holds

/-! ## Closing -/

/-- The last document of a record follows those before it. -/
theorem follows_document {documents : List (DocId × List Extent)} {doc : DocId}
    {extents : List Extent}
    (ascending : ((doc, extents) :: documents).Pairwise fun later earlier => earlier.1 < later.1)
    (ordered : Extent.WellOrdered extents.reverse) (occupied : extents ≠ []) :
    Block.Builder.Follows (Block.lastDoc? (postingsOf documents)) doc extents.reverse := by
  refine ⟨?_, by simpa using occupied, ordered⟩
  intro last ends
  obtain ⟨posting, inside, rfl⟩ := List.mem_map.mp (List.mem_of_getLast? ends)
  obtain ⟨entry, member, _, rfl⟩ := mem_postingsOf inside
  exact (List.pairwise_cons.mp ascending).1 entry member

/-- Closing the open document puts it into the block of its key. -/
theorem closeDocument_holds (holds : Holds interval ledger writer) (inOrder : ledger.InOrder)
    {record : Record} {earlier : List Record} (opened : ledger.records = record :: earlier) :
    writer.closeDocument =
      .ok
        { writer with
          document := none
          block := some (Block.Builder.of (max interval 1) record.postings) } := by
  have member : record ∈ ledger.records := opened ▸ List.mem_cons_self
  have ascending := inOrder.documents record member
  have ordered := inOrder.extents record member
  rw [closeDocument, holds.opened_document opened, holds.opened_block opened, Record.postings]
  cases same : record.documents with
  | nil =>
      rw [List.head?_nil, List.tail_nil]
  | cons entry documents =>
      obtain ⟨doc, extents⟩ := entry
      rw [same] at ascending
      have sorted := ordered (doc, extents) (same ▸ List.mem_cons_self)
      have block := holds.opened_block opened
      rw [same, List.tail_cons] at block
      simp only [List.head?_cons, List.tail_cons]
      by_cases empty : extents = []
      · subst empty
        rw [List.isEmpty_nil, if_pos rfl, postingsOf_cons_nil, ← block]
      · have occupied : ¬extents.isEmpty = true := by simpa using empty
        have added := @Block.Builder.add_of (max interval 1) (postingsOf documents)
          ⟨doc, extents.length, extents.reverse⟩ (follows_document ascending sorted empty)
        rw [if_neg occupied, added, postingsOf_cons doc empty]
        rfl

/-- A block goes behind the others, whether it stays in the buffer or not. -/
theorem append_eq (writer : Writer) (block : List UInt8) :
    ∃ stored buffer, stored ++ buffer = writer.stored ++ (writer.buffer ++ block) ∧
      writer.append block =
        { writer with
          stored := stored
          buffer := buffer
          register := Checksum.absorbAll writer.register block
          postingsLength := writer.postingsLength + block.length } := by
  unfold append
  dsimp only
  split
  · exact ⟨writer.stored ++ (writer.buffer ++ block), #[], Array.append_empty, rfl⟩
  · exact ⟨writer.stored, writer.buffer ++ block, rfl, rfl⟩

/-- Closing the open key puts its block behind the others. -/
theorem closeKey_holds (holds : Holds interval ledger writer) (inOrder : ledger.InOrder) :
    ∃ closed, writer.closeKey = .ok closed ∧ Rests interval ledger closed := by
  cases opened : ledger.records with
  | nil =>
      have closed : writer.closeDocument = .ok { writer with document := none } := by
        rw [closeDocument, holds.blank_document opened]
      have gathered := holds.gathered
      rw [opened] at gathered
      refine ⟨{ writer with document := none }, ?_, holds.spacing, holds.collection, holds.keys,
        ?_, rfl⟩
      · rw [closeKey, closed, Step.ok_bind]
        simp only [holds.blank_block opened]
        rfl
      · rw [opened]
        exact ⟨gathered.bytes, gathered.register, gathered.length⟩
  | cons record earlier =>
      obtain ⟨stored, buffer, bytes, appended⟩ := append_eq
        { writer with document := none, block := none }
        (Block.image (max interval 1) record.postings)
      have gathered := holds.gathered
      rw [opened, List.tail_cons] at gathered
      have closed : writer.closeKey =
          .ok ({ writer with document := none, block := none }.append
            (Block.image (max interval 1) record.postings)) := by
        rw [closeKey, closeDocument_holds holds inOrder opened]
        rfl
      refine ⟨_, closed, ?_⟩
      rw [appended]
      refine ⟨holds.spacing, holds.collection, holds.keys, ?_, rfl⟩
      rw [opened]
      refine ⟨?_, ?_, ?_⟩
      · rw [List.reverse_cons, blocksOf_append, blocksOf_singleton, ← gathered.bytes, bytes]
        simp
      · rw [List.reverse_cons, blocksOf_append, blocksOf_singleton, Checksum.absorbAll_append,
          ← gathered.register]
      · rw [List.reverse_cons, blocksOf_append, blocksOf_singleton, List.length_append,
          ← gathered.length]

/-! ## Accepted calls -/

theorem beginKey_eq_ok {key : Key} {after : Writer} (accepted : writer.beginKey key = .ok after) :
    (∀ last, writer.lastKey = some last → last < key) ∧
      ∃ closed, writer.closeKey = .ok closed ∧
        after =
          { closed with
            keys := closed.keys.push (key, closed.postingsLength)
            lastKey := some key
            block := some (Block.Builder.new closed.interval)
            lastDoc := none } := by
  unfold beginKey at accepted
  cases known : writer.lastKey with
  | none =>
      rw [known] at accepted
      obtain ⟨closed, run, same⟩ := Step.ok_of_bind accepted
      cases same
      exact ⟨fun _ impossible => (nomatch impossible), closed, run, rfl⟩
  | some last =>
      rw [known] at accepted
      by_cases refused : key ≤ last
      · simp only [if_pos refused] at accepted
        cases accepted
      · simp only [if_neg refused] at accepted
        obtain ⟨closed, run, same⟩ := Step.ok_of_bind accepted
        cases same
        refine ⟨?_, closed, run, rfl⟩
        rintro other ⟨rfl⟩
        exact List.not_le.mp refused

theorem beginDocument_eq_ok {doc : DocId} {after : Writer}
    (accepted : writer.beginDocument doc = .ok after) :
    writer.block.isNone = false ∧ (∀ last, writer.lastDoc = some last → last < doc) ∧
      ∃ closed, writer.closeDocument = .ok closed ∧
        after = { closed with document := some (doc, []), lastDoc := some doc } := by
  unfold beginDocument at accepted
  cases begun : writer.block.isNone with
  | true =>
      simp only [begun, if_true] at accepted
      cases accepted
  | false =>
      simp only [begun, Bool.false_eq_true, if_false] at accepted
      refine ⟨rfl, ?_⟩
      cases known : writer.lastDoc with
      | none =>
          rw [known] at accepted
          obtain ⟨closed, run, same⟩ := Step.ok_of_bind accepted
          cases same
          exact ⟨fun _ impossible => (nomatch impossible), closed, run, rfl⟩
      | some last =>
          rw [known] at accepted
          by_cases refused : doc ≤ last
          · simp only [if_pos refused] at accepted
            cases accepted
          · simp only [if_neg refused] at accepted
            obtain ⟨closed, run, same⟩ := Step.ok_of_bind accepted
            cases same
            refine ⟨?_, closed, run, rfl⟩
            rintro other ⟨rfl⟩
            exact DocId.not_le.mp refused

theorem addExtent_eq_ok {extent : Extent} {after : Writer}
    (accepted : writer.addExtent extent = .ok after) :
    ∃ doc extents, writer.document = some (doc, extents) ∧ extent.start ≤ extent.stop ∧
      (∀ last, extents.head? = some last → last.start ≤ extent.start) ∧
      after = { writer with document := some (doc, extent :: extents) } := by
  unfold addExtent at accepted
  cases opened : writer.document with
  | none =>
      rw [opened] at accepted
      cases accepted
  | some entry =>
      obtain ⟨doc, extents⟩ := entry
      rw [opened] at accepted
      refine ⟨doc, extents, rfl, ?_⟩
      cases extents with
      | nil =>
          simp only [List.head?_nil, Bool.and_true, decide_eq_true_eq] at accepted
          by_cases forward : extent.start ≤ extent.stop
          · rw [if_pos forward] at accepted
            cases accepted
            exact ⟨forward, fun _ impossible => (nomatch impossible), rfl⟩
          · rw [if_neg forward] at accepted
            cases accepted
      | cons last extents =>
          simp only [List.head?_cons, Bool.and_eq_true, decide_eq_true_eq] at accepted
          by_cases passed : extent.start ≤ extent.stop ∧ last.start ≤ extent.start
          · rw [if_pos passed] at accepted
            cases accepted
            refine ⟨passed.1, ?_, rfl⟩
            rintro other ⟨rfl⟩
            exact passed.2
          · rw [if_neg passed] at accepted
            cases accepted

theorem beginKey_holds (holds : Holds interval ledger writer) (inOrder : ledger.InOrder)
    {key : Key} {after : Writer} (accepted : writer.beginKey key = .ok after) :
    Holds interval (ledger.record (.beginKey key)) after ∧
      (ledger.record (.beginKey key)).InOrder := by
  obtain ⟨above, closed, run, rfl⟩ := beginKey_eq_ok accepted
  obtain ⟨same, closing, rests⟩ := closeKey_holds holds inOrder
  cases run.symm.trans closing
  have last : ∀ record, ledger.records.head? = some record → record.key < key := by
    intro record latest
    exact above record.key (by rw [holds.lastKey, latest]; rfl)
  refine ⟨⟨rests.spacing, rests.collection, ?_, rfl,
      ⟨rests.gathered.bytes, rests.gathered.register, rests.gathered.length⟩, ?_, rests.document, ?_⟩,
    inOrder.beginKey (inOrder.above_last last)⟩
  · rw [Ledger.record, List.reverse_cons, entriesFrom_append, Array.toList_push, rests.keys,
      rests.gathered.length, Nat.zero_add]
    rfl
  · rw [rests.spacing]
    exact congrArg some (Block.Builder.new_eq_of interval)
  · rw [rests.document]
    rfl

theorem beginDocument_holds (holds : Holds interval ledger writer) (inOrder : ledger.InOrder)
    {doc : DocId} {after : Writer} (accepted : writer.beginDocument doc = .ok after) :
    Holds interval (ledger.record (.beginDocument doc)) after ∧
      (ledger.record (.beginDocument doc)).InOrder := by
  obtain ⟨begun, above, closed, run, rfl⟩ := beginDocument_eq_ok accepted
  obtain ⟨record, earlier, opened⟩ := holds.opened_of_block begun
  rw [closeDocument_holds holds inOrder opened] at run
  cases run
  refine ⟨@Holds.onLast _ _ _ _ _ holds (Record.beginDocument doc) opened rfl, ?_⟩
  refine inOrder.beginDocument opened fun last latest => above last.1 ?_
  rw [holds.lastDoc, holds.opened_document opened, latest]
  rfl

theorem addExtent_holds (holds : Holds interval ledger writer) (inOrder : ledger.InOrder)
    {extent : Extent} {after : Writer} (accepted : writer.addExtent extent = .ok after) :
    Holds interval (ledger.record (.addExtent extent)) after ∧
      (ledger.record (.addExtent extent)).InOrder := by
  obtain ⟨doc, extents, current, forward, above, rfl⟩ := addExtent_eq_ok accepted
  obtain ⟨record, earlier, opened⟩ := holds.opened_of_document current
  have latest := holds.opened_document opened
  rw [current] at latest
  obtain ⟨documents, split⟩ := List.head?_eq_some_iff.mp latest.symm
  have changed : record.addExtent extent =
      { record with documents := (doc, extent :: extents) :: documents } := by
    rw [Record.addExtent, split]
  have block := holds.opened_block opened
  rw [split, List.tail_cons] at block
  have lastDoc := holds.lastDoc
  rw [current] at lastDoc
  have same : (record.addExtent extent).key = record.key := by rw [changed]
  have kept := @Holds.onLast _ _ _ _ _ holds (Record.addExtent extent) opened same
  rw [changed, List.tail_cons, List.head?_cons, ← block] at kept
  refine ⟨?_, inOrder.addExtent opened split forward above⟩
  exact lastDoc ▸ kept

theorem call_holds (holds : Holds interval ledger writer) (inOrder : ledger.InOrder)
    {request : Call} {after : Writer} (accepted : writer.call request = .ok after) :
    Holds interval (ledger.record request) after ∧ (ledger.record request).InOrder := by
  cases request with
  | beginKey key => exact beginKey_holds holds inOrder accepted
  | beginDocument doc => exact beginDocument_holds holds inOrder accepted
  | addOccurrence position => exact addExtent_holds holds inOrder accepted
  | addExtent extent => exact addExtent_holds holds inOrder accepted
  | setCollection length documents =>
      cases accepted
      exact ⟨⟨holds.spacing, rfl, holds.keys, holds.lastKey, 
        ⟨holds.gathered.bytes, holds.gathered.register, holds.gathered.length⟩, holds.block, 
        holds.document, holds.lastDoc⟩, ⟨inOrder.keys, inOrder.documents, inOrder.extents⟩⟩

/-- A writer that has accepted some calls holds what they say. -/
theorem callAll_holds (holds : Holds interval ledger writer) (inOrder : ledger.InOrder)
    {calls : List Call} {after : Writer} (accepted : writer.callAll calls = .ok after) :
    Holds interval (calls.foldl Ledger.record ledger) after ∧
      (calls.foldl Ledger.record ledger).InOrder := by
  induction calls generalizing ledger writer with
  | nil =>
      cases accepted
      exact ⟨holds, inOrder⟩
  | cons request calls induction =>
      rw [callAll, List.foldlM_cons] at accepted
      cases first : writer.call request with
      | error cause =>
          rw [first] at accepted
          cases accepted
      | ok middle =>
          rw [first] at accepted
          obtain ⟨holdsMiddle, inOrderMiddle⟩ := call_holds holds inOrder first
          exact induction holdsMiddle inOrderMiddle accepted

/-! ## The finished file -/

end Writer

/-- The file that says what a ledger says. -/
def Ledger.written (ledger : Ledger) (interval : Nat) (format : KeyFormat) : Written :=
  let postings := blocksOf interval ledger.records.reverse
  let keys := format.encode ⟨entriesFrom interval 0 ledger.records.reverse⟩
  ⟨Header.ofRegions postings keys ledger.records.length ledger.collection, postings, keys⟩

theorem length_entriesFrom (interval offset : Nat) (records : List Record) :
    (entriesFrom interval offset records).length = records.length := by
  have keys := congrArg List.length (keys_entriesFrom interval offset records)
  rwa [List.length_map, List.length_map] at keys

namespace Writer

variable {interval : Nat} {ledger : Ledger} {writer : Writer}

/-- A writer can always be finished. -/
theorem finish_holds (holds : Holds interval ledger writer) (inOrder : ledger.InOrder)
    (format : KeyFormat) :
    writer.finish format = .ok (ledger.written (max interval 1) format) := by
  obtain ⟨closed, run, rests⟩ := closeKey_holds holds inOrder
  have bytes := rests.gathered.bytes
  have count : closed.keys.size = ledger.records.length := by
    rw [← Array.length_toList, rests.keys, length_entriesFrom, List.length_reverse]
  rw [finish, run, Step.ok_bind]
  simp only [flush, bytes, count, rests.keys, rests.gathered.register, rests.gathered.length,
    rests.collection]
  rfl

/-- The calls that a writer has accepted fix the file it leaves. -/
theorem finish_callAll {calls : List Call}
    (accepted : (new interval).callAll calls = .ok writer) (format : KeyFormat) :
    (Ledger.ofCalls calls).InOrder ∧
      writer.finish format = .ok ((Ledger.ofCalls calls).written (max interval 1) format) := by
  obtain ⟨holds, inOrder⟩ := callAll_holds (new_holds interval) Ledger.InOrder.empty accepted
  exact ⟨inOrder, finish_holds holds inOrder format⟩

end Writer

end Index

end Concordance
