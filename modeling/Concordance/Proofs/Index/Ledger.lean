import Concordance.Index.Writer
import Concordance.Proofs.Block.Acceptance

/-!
# What a writer was told

A ledger keeps what the calls on a writer have said, in the plainest form: the
keys, under each key its documents, for each document its extents, always the
latest one first.  What an index has to contain is read off the ledger.
-/

namespace Concordance

/-- The extent of one occurrence; at the last position it is empty. -/
def Extent.point (position : UInt32) : Extent :=
  ⟨position.toNat, min (position.toNat + 1) lastPosition, position.toNat_lt, by
    simp only [lastPosition]
    omega⟩

namespace Index

/-- A call on a writer. -/
inductive Call where
  | beginKey (key : Key)
  | beginDocument (doc : DocId)
  | addOccurrence (position : UInt32)
  | addExtent (extent : Extent)
  | setCollection (length documents : UInt64)
  deriving DecidableEq

namespace Writer

/-- Make a call. -/
def call (writer : Writer) : Call → Except Error Writer
  | .beginKey key => writer.beginKey key
  | .beginDocument doc => writer.beginDocument doc
  | .addOccurrence position => writer.addExtent (Extent.point position)
  | .addExtent extent => writer.addExtent extent
  | .setCollection length documents =>
    .ok (writer.setCollection ⟨length.toNat, documents.toNat⟩)

/-- Make calls that have to be accepted all. -/
def callAll (writer : Writer) (calls : List Call) : Except Error Writer :=
  calls.foldlM call writer

end Writer

/-- What was said about one key. -/
structure Record where
  key : Key
  /-- The documents with their extents, the last of each first. -/
  documents : List (DocId × List Extent)

/-- The postings of some documents, of which those without extents are left out. -/
def postingsOf (documents : List (DocId × List Extent)) : List Posting :=
  documents.reverse.filterMap fun entry =>
    if entry.2.isEmpty then none else some ⟨entry.1, entry.2.length, entry.2.reverse⟩

namespace Record

def postings (record : Record) : List Posting := postingsOf record.documents

def beginDocument (doc : DocId) (record : Record) : Record :=
  { record with documents := (doc, []) :: record.documents }

def addExtent (extent : Extent) (record : Record) : Record :=
  match record.documents with
  | [] => record
  | (doc, extents) :: earlier => { record with documents := (doc, extent :: extents) :: earlier }

end Record

/-- What was said to a writer. -/
structure Ledger where
  /-- The records of the keys, the last one first. -/
  records : List Record
  collection : Collection

namespace Ledger

def empty : Ledger := ⟨[], Collection.empty⟩

/-- Change the record of the last key. -/
def onLast (change : Record → Record) (ledger : Ledger) : Ledger :=
  match ledger.records with
  | [] => ledger
  | record :: earlier => { ledger with records := change record :: earlier }

/-- The ledger behind one more call. -/
def record (ledger : Ledger) : Call → Ledger
  | .beginKey key => { ledger with records := ⟨key, []⟩ :: ledger.records }
  | .beginDocument doc => ledger.onLast (Record.beginDocument doc)
  | .addOccurrence position => ledger.onLast (Record.addExtent (Extent.point position))
  | .addExtent extent => ledger.onLast (Record.addExtent extent)
  | .setCollection length documents =>
    { ledger with collection := ⟨length.toNat, documents.toNat⟩ }

/-- What some calls have said. -/
def ofCalls (calls : List Call) : Ledger := calls.foldl record empty

/-- The keys in the order in which they were begun. -/
def keys (ledger : Ledger) : List Key := (ledger.records.map Record.key).reverse

/-- The postings under each key that was begun. -/
def contents (ledger : Ledger) (key : Key) : Option (List Posting) :=
  (ledger.records.find? fun record => record.key == key).map Record.postings

/-- Keys, documents and extents that came in order. -/
structure InOrder (ledger : Ledger) : Prop where
  keys : ledger.records.Pairwise fun later earlier => earlier.key < later.key
  documents : ∀ record ∈ ledger.records,
    record.documents.Pairwise fun later earlier => earlier.1 < later.1
  extents : ∀ record ∈ ledger.records, ∀ entry ∈ record.documents,
    Extent.WellOrdered entry.2.reverse

namespace InOrder

variable {ledger : Ledger}

theorem empty : InOrder Ledger.empty :=
  ⟨.nil, fun _ impossible => (nomatch impossible), fun _ impossible => (nomatch impossible)⟩

/-- Only the latest key has to be looked at before one more. -/
theorem above_last (inOrder : ledger.InOrder) {key : Key}
    (last : ∀ record, ledger.records.head? = some record → record.key < key) :
    ∀ record ∈ ledger.records, record.key < key := by
  intro record member
  cases same : ledger.records with
  | nil => rw [same] at member; cases member
  | cons latest earlier =>
      have top := last latest (by rw [same]; rfl)
      rw [same] at member
      rcases List.mem_cons.mp member with rfl | member
      · exact top
      · have ascending := inOrder.keys
        rw [same] at ascending
        exact List.lt_trans ((List.pairwise_cons.mp ascending).1 record member) top

theorem beginKey (inOrder : ledger.InOrder) {key : Key}
    (above : ∀ record ∈ ledger.records, record.key < key) :
    (ledger.record (.beginKey key)).InOrder := by
  refine ⟨List.pairwise_cons.mpr ⟨above, inOrder.keys⟩, ?_, ?_⟩
  · exact List.forall_mem_cons.mpr ⟨.nil, inOrder.documents⟩
  · exact List.forall_mem_cons.mpr ⟨fun _ impossible => (nomatch impossible), inOrder.extents⟩

/-- Changes of the last record that leave its key and its own order. -/
theorem onLast (inOrder : ledger.InOrder) {change : Record → Record} {record : Record}
    {earlier : List Record} (opened : ledger.records = record :: earlier)
    (key : (change record).key = record.key)
    (documents : (change record).documents.Pairwise fun later earlier => earlier.1 < later.1)
    (extents : ∀ entry ∈ (change record).documents, Extent.WellOrdered entry.2.reverse) :
    (ledger.onLast change).InOrder := by
  have same : (ledger.onLast change).records = change record :: earlier := by
    rw [Ledger.onLast, opened]
  refine ⟨?_, ?_, ?_⟩
  · have ascending := inOrder.keys
    rw [opened] at ascending
    rw [same, List.pairwise_cons, key]
    exact List.pairwise_cons.mp ascending
  · rw [same]
    refine List.forall_mem_cons.mpr ⟨documents, fun other member => ?_⟩
    exact inOrder.documents other (opened ▸ List.mem_cons_of_mem _ member)
  · rw [same]
    refine List.forall_mem_cons.mpr ⟨extents, fun other member => ?_⟩
    exact inOrder.extents other (opened ▸ List.mem_cons_of_mem _ member)

theorem beginDocument (inOrder : ledger.InOrder) {record : Record} {earlier : List Record}
    (opened : ledger.records = record :: earlier) {doc : DocId}
    (above : ∀ last, record.documents.head? = some last → last.1 < doc) :
    (ledger.record (.beginDocument doc)).InOrder := by
  have member : record ∈ ledger.records := opened ▸ List.mem_cons_self
  have ascending := inOrder.documents record member
  refine inOrder.onLast opened rfl (List.pairwise_cons.mpr ⟨?_, ascending⟩) ?_
  · intro entry inside
    cases same : record.documents with
    | nil => rw [same] at inside; cases inside
    | cons last documents =>
        have top := above last (by rw [same]; rfl)
        rw [same] at inside ascending
        rcases List.mem_cons.mp inside with rfl | inside
        · exact top
        · exact Nat.lt_trans ((List.pairwise_cons.mp ascending).1 entry inside) top
  · exact List.forall_mem_cons.mpr ⟨⟨by simp, .nil⟩, inOrder.extents record member⟩

theorem addExtent (inOrder : ledger.InOrder) {record : Record} {earlier : List Record}
    (opened : ledger.records = record :: earlier) {doc : DocId} {extents : List Extent}
    {documents : List (DocId × List Extent)}
    (current : record.documents = (doc, extents) :: documents) {extent : Extent}
    (forward : extent.start ≤ extent.stop)
    (above : ∀ last, extents.head? = some last → last.start ≤ extent.start) :
    (ledger.record (.addExtent extent)).InOrder := by
  have member : record ∈ ledger.records := opened ▸ List.mem_cons_self
  have ascending := inOrder.documents record member
  have ordered := inOrder.extents record member
  rw [current] at ascending ordered
  obtain ⟨here, others⟩ := List.forall_mem_cons.mp ordered
  have changed : (record.addExtent extent).documents = (doc, extent :: extents) :: documents := by
    rw [Record.addExtent, current]
  refine inOrder.onLast opened ?_ ?_ ?_
  · rw [Record.addExtent, current]
  · rw [changed]
    exact List.pairwise_cons.mpr (List.pairwise_cons.mp ascending)
  · rw [changed]
    refine List.forall_mem_cons.mpr ⟨?_, others⟩
    exact here.concat forward above

end InOrder

end Ledger

/-! ## The postings of a record -/

theorem postingsOf_cons_nil (doc : DocId) (earlier : List (DocId × List Extent)) :
    postingsOf ((doc, []) :: earlier) = postingsOf earlier := by
  simp [postingsOf]

theorem postingsOf_cons (doc : DocId) {extents : List Extent} (occupied : extents ≠ [])
    (earlier : List (DocId × List Extent)) :
    postingsOf ((doc, extents) :: earlier) =
      postingsOf earlier ++ [⟨doc, extents.length, extents.reverse⟩] := by
  simp [postingsOf, occupied]

theorem mem_postingsOf {documents : List (DocId × List Extent)} {posting : Posting}
    (member : posting ∈ postingsOf documents) :
    ∃ entry ∈ documents, entry.2 ≠ [] ∧
      posting = ⟨entry.1, entry.2.length, entry.2.reverse⟩ := by
  obtain ⟨entry, inside, same⟩ := List.mem_filterMap.mp member
  refine ⟨entry, List.mem_reverse.mp inside, ?_⟩
  by_cases empty : entry.2.isEmpty = true
  · rw [if_pos empty] at same
    cases same
  · rw [if_neg empty] at same
    cases same
    exact ⟨by simpa using empty, rfl⟩

/-- Documents that came in order have a block. -/
theorem encodable_postingsOf {documents : List (DocId × List Extent)}
    (ascending : documents.Pairwise fun later earlier => earlier.1 < later.1)
    (ordered : ∀ entry ∈ documents, Extent.WellOrdered entry.2.reverse) :
    Block.Encodable (postingsOf documents) := by
  constructor
  · unfold Block.Ascending postingsOf
    rw [List.pairwise_filterMap, List.pairwise_reverse]
    apply ascending.imp
    intro later earlier less first firstSame second secondSame
    by_cases firstEmpty : earlier.2.isEmpty = true
    · rw [if_pos firstEmpty] at firstSame
      cases firstSame
    · by_cases secondEmpty : later.2.isEmpty = true
      · rw [if_pos secondEmpty] at secondSame
        cases secondSame
      · rw [if_neg firstEmpty] at firstSame
        rw [if_neg secondEmpty] at secondSame
        cases firstSame
        cases secondSame
        exact less
  · intro posting member
    obtain ⟨entry, inside, occupied, rfl⟩ := mem_postingsOf member
    exact ⟨by simp, by simpa using occupied, ordered entry inside⟩

end Index

end Concordance
