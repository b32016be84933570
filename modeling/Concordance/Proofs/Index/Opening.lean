import Concordance.Index.Basic
import Concordance.Proofs.Block.Reader
import Concordance.Proofs.Index.Dictionary
import Concordance.Proofs.Index.Writer
import Concordance.Proofs.Query.Meaning

/-!
# Opening what was written

The file of a ledger opens, and the index behind it hands out the block of each
key, cut out between the offset of the key and that of the next one.
-/

namespace Concordance

/-- An index that hands out the blocks of some contents. -/
structure Index.Serves (index : Index) (interval : Nat) (contents : Contents) : Prop where
  present : ∀ key postings, contents key = some postings →
    Block.Stored interval postings ∧
      index.block? key = .ok (some (Block.image interval postings))
  missing : ∀ key, contents key = none → index.block? key = .ok none

namespace Index

/-- A ledger whose file a machine with addresses of 64 bits can read: its counts
have 32 bits, and the file is shorter than `2 ^ 61` bytes. -/
structure Ledger.Addressable (interval : Nat) (format : KeyFormat) (ledger : Ledger) : Prop where
  positive : 0 < interval
  interval_lt : interval < Block.Layout.addressLimit
  extents_lt : ∀ record ∈ ledger.records, ∀ entry ∈ record.documents,
    entry.2.length < 4294967296
  length_lt : (ledger.written interval format).bytes.length < 2305843009213693952

/-- The index that the file of a ledger opens to. -/
def Ledger.index (ledger : Ledger) (interval : Nat) (format : KeyFormat) (name : String) : Index :=
  { name := name
    header := (ledger.written interval format).header
    postings := (ledger.written interval format).postings
    keys := ⟨entriesFrom interval 0 ledger.records.reverse⟩ }

variable {interval : Nat} {format : KeyFormat} {ledger : Ledger}

/-! ## Opening -/

/-- A file that is put together of its regions opens, with or without a look at
the checksum. -/
theorem open?_regions {postings keys : List UInt8} {dictionary : Dictionary}
    {collection : Collection} (decoded : format.decode keys = .ok dictionary)
    (bound : Header.size + postings.length + keys.length < Header.offsetLimit)
    (count : dictionary.size < Header.offsetLimit) (name : String) (verify : Bool) :
    let header := Header.ofRegions postings keys dictionary.size collection
    open? ⟨name, some (header.encode ++ postings ++ keys)⟩ verify format =
      .ok ⟨name, header, postings, dictionary⟩ := by
  intro header
  have regions : (header.encode ++ postings).length = Header.size + postings.length := by
    rw [List.length_append, Header.length_encode]
  have head : Header.decode (header.encode ++ postings ++ keys) = .ok header := by
    rw [List.append_assoc]
    exact Header.decode_append rfl rfl _
  have length : (header.encode ++ postings ++ keys).length =
      Header.size + postings.length + keys.length := by
    rw [List.length_append, regions]
  have keysBytes : (header.encode ++ postings ++ keys).drop (Header.size + postings.length) =
      keys := List.drop_left' regions
  have postingsBytes : ((header.encode ++ postings ++ keys).drop Header.size).take
      (Header.size + postings.length - Header.size) = postings := by
    rw [List.append_assoc, List.drop_left' header.length_encode, Nat.add_sub_cancel_left,
      List.take_left]
  have keyCount : header.keyCount.toNat = dictionary.size := Header.ofRegions_keyCount count _
  have checksum : header.checksum = UInt32.ofBitVec (Checksum.ofBytes postings) := rfl
  unfold open?
  dsimp only
  rw [pure_bind, head, Step.ok_bind, Header.ofRegions_postingsRange (by omega), Step.ok_bind,
    Header.ofRegions_keysRange bound, Step.ok_bind]
  dsimp only
  rw [length, if_neg (not_not_intro rfl), postingsBytes, checksum, keysBytes]
  simp only [ne_eq, not_true_eq_false, decide_false, Bool.and_false, Bool.false_eq_true, if_false]
  rw [decoded, Step.ok_bind, keyCount, if_neg (not_not_intro rfl)]
  rfl

/-! ## Blocks and entries -/

theorem length_written (interval : Nat) (format : KeyFormat) (ledger : Ledger) :
    (ledger.written interval format).bytes.length =
      Header.size + (ledger.written interval format).postings.length
        + (ledger.written interval format).keys.length := by
  rw [Written.bytes, List.length_append, List.length_append, Header.length_encode]

theorem length_le_length_blocksOf (interval : Nat) (records : List Record) :
    records.length ≤ (blocksOf interval records).length := by
  induction records with
  | nil => exact Nat.le_refl 0
  | cons record records induction =>
      have first := Block.length_image_pos interval record.postings
      rw [blocksOf_cons, List.length_append, List.length_cons]
      omega

theorem entriesFrom_le (interval offset : Nat) (records : List Record) :
    ∀ entry ∈ entriesFrom interval offset records,
      entry.2 ≤ offset + (blocksOf interval records).length := by
  induction records generalizing offset with
  | nil => exact fun _ impossible => nomatch impossible
  | cons record records induction =>
      refine List.forall_mem_cons.mpr ⟨Nat.le_add_right _ _, fun entry member => ?_⟩
      have later := induction _ entry member
      rw [blocksOf_cons, List.length_append]
      omega

theorem entries_ascending (inOrder : ledger.InOrder) :
    Dictionary.Ascending (entriesFrom interval 0 ledger.records.reverse) := by
  have keys : ((entriesFrom interval 0 ledger.records.reverse).map Prod.fst).Pairwise
      fun first second => first < second := by
    rw [keys_entriesFrom, List.map_reverse, List.pairwise_reverse, List.pairwise_map]
    exact inOrder.keys
  exact List.pairwise_map.mp keys

/-! ## Opening -/

/-- The file of a ledger opens, with or without a look at the checksum. -/
theorem open?_written (faithful : format.Faithful) (inOrder : ledger.InOrder)
    (addressable : ledger.Addressable interval format) (name : String) (verify : Bool) :
    open? ⟨name, some (ledger.written interval format).bytes⟩ verify format =
      .ok (ledger.index interval format name) := by
  have whole := length_written interval format ledger
  have limit := addressable.length_lt
  have offsetLimit : Header.offsetLimit = 18446744073709551616 := rfl
  have count : ledger.records.length ≤ (blocksOf interval ledger.records.reverse).length := by
    have records := length_le_length_blocksOf interval ledger.records.reverse
    rwa [List.length_reverse] at records
  have postings : (ledger.written interval format).postings =
    blocksOf interval ledger.records.reverse := rfl
  rw [postings] at whole
  have dictionary : format.decode (ledger.written interval format).keys =
      .ok ⟨entriesFrom interval 0 ledger.records.reverse⟩ := by
    refine faithful.decode_encode ⟨entriesFrom interval 0 ledger.records.reverse⟩
      (entries_ascending inOrder) (fun entry member => ?_) ?_
    · have inside := entriesFrom_le interval 0 ledger.records.reverse entry member
      omega
    · change (ledger.written interval format).keys.length < _
      omega
  have size : (entriesFrom interval 0 ledger.records.reverse).length = ledger.records.length := by
    rw [length_entriesFrom, List.length_reverse]
  have opened := @open?_regions format (blocksOf interval ledger.records.reverse) _ _
    ledger.collection dictionary (by omega) (by simp only [Dictionary.size]; omega) name verify
  simp only [Dictionary.size, size] at opened
  exact opened

/-! ## Blocks -/

theorem postingsLength_index (addressable : ledger.Addressable interval format) (name : String) :
    (ledger.index interval format name).header.postingsLength.toNat =
      (blocksOf interval ledger.records.reverse).length := by
  have whole := length_written interval format ledger
  have limit := addressable.length_lt
  have postings : (ledger.written interval format).postings =
    blocksOf interval ledger.records.reverse := rfl
  rw [postings] at whole
  exact Header.ofRegions_postingsLength (by simp only [Header.offsetLimit]; omega) _ _

section Middle

variable {front back : List Record} {record : Record}

theorem entries_middle (split : ledger.records.reverse = front ++ record :: back) :
    entriesFrom interval 0 ledger.records.reverse =
      entriesFrom interval 0 front ++ (record.key, (blocksOf interval front).length) ::
        entriesFrom interval
          ((blocksOf interval front).length + (Block.image interval record.postings).length)
          back := by
  rw [split, entriesFrom_append, Nat.zero_add, entriesFrom]

theorem blocks_middle (split : ledger.records.reverse = front ++ record :: back) :
    blocksOf interval ledger.records.reverse =
      blocksOf interval front ++
        (Block.image interval record.postings ++ blocksOf interval back) := by
  rw [split, blocksOf_append, blocksOf_cons]

/-- The offset of a key is the place behind the blocks before its own. -/
theorem get?_middle (inOrder : ledger.InOrder)
    (split : ledger.records.reverse = front ++ record :: back) :
    Dictionary.get? ⟨entriesFrom interval 0 ledger.records.reverse⟩ record.key =
      some (blocksOf interval front).length := by
  have ascending := @entries_ascending interval ledger inOrder
  rw [entries_middle split] at ascending ⊢
  exact Dictionary.get?_middle ascending

theorem after?_middle (inOrder : ledger.InOrder)
    (split : ledger.records.reverse = front ++ record :: back) :
    Dictionary.after? ⟨entriesFrom interval 0 ledger.records.reverse⟩ record.key =
      (entriesFrom interval
        ((blocksOf interval front).length + (Block.image interval record.postings).length)
        back).head? := by
  have ascending := @entries_ascending interval ledger inOrder
  rw [entries_middle split] at ascending ⊢
  exact Dictionary.after?_middle ascending

/-- The block of a key ends where the next one starts, or with the postings. -/
theorem blockStop_middle (inOrder : ledger.InOrder)
    (addressable : ledger.Addressable interval format)
    (split : ledger.records.reverse = front ++ record :: back) (name : String) :
    (ledger.index interval format name).blockStop record.key =
      (blocksOf interval front).length + (Block.image interval record.postings).length := by
  have behind := @after?_middle interval ledger _ _ _ inOrder split
  have total := postingsLength_index addressable name
  rw [blocks_middle split] at total
  unfold blockStop
  rw [show (ledger.index interval format name).keys =
    ⟨entriesFrom interval 0 ledger.records.reverse⟩ from rfl, behind]
  cases back with
  | nil => simpa [entriesFrom, blocksOf] using total
  | cons next back => rfl

/-- The block of a key stands between its offset and that of the next key. -/
theorem blockAt_middle (inOrder : ledger.InOrder)
    (addressable : ledger.Addressable interval format)
    (split : ledger.records.reverse = front ++ record :: back) (name : String) :
    (ledger.index interval format name).blockAt record.key (blocksOf interval front).length =
      .ok (Block.image interval record.postings) := by
  have total := postingsLength_index addressable name
  have blocks := @blocks_middle interval ledger _ _ _ split
  have postings : (ledger.index interval format name).postings =
    blocksOf interval ledger.records.reverse := rfl
  rw [blocks, List.length_append, List.length_append] at total
  unfold blockAt
  dsimp only
  rw [blockStop_middle inOrder addressable split, if_neg (by omega), postings, blocks,
    List.drop_left, Nat.add_sub_cancel_left, List.take_left]

end Middle

/-! ## Contents -/

theorem mem_keys {key : Key} :
    key ∈ ledger.keys ↔ ∃ record ∈ ledger.records, record.key = key := by
  rw [Ledger.keys, List.mem_reverse, List.mem_map]

/-- Each key has one record. -/
theorem contents_eq (inOrder : ledger.InOrder) {record : Record}
    (member : record ∈ ledger.records) :
    ledger.contents record.key = some record.postings := by
  obtain ⟨later, earlier, split⟩ := List.append_of_mem member
  have keys := inOrder.keys
  rw [split] at keys
  obtain ⟨_, _, across⟩ := List.pairwise_append.mp keys
  have found : ledger.records.find? (fun other => other.key == record.key) = some record := by
    refine List.find?_eq_some_iff_append.mpr ⟨by simp, later, earlier, split, ?_⟩
    intro other inside
    have less := across other inside record List.mem_cons_self
    have different : other.key ≠ record.key := fun same =>
      List.lt_irrefl _ (same ▸ less : record.key < record.key)
    simpa using different
  rw [Ledger.contents, found, Option.map_some]

theorem contents_eq_some {key : Key} {postings : List Posting}
    (known : ledger.contents key = some postings) :
    ∃ record ∈ ledger.records, record.key = key ∧ record.postings = postings := by
  obtain ⟨record, found, same⟩ := Option.map_eq_some_iff.mp known
  exact ⟨record, List.mem_of_find?_eq_some found, by simpa using List.find?_some found, same⟩

theorem contents_eq_none {key : Key} : ledger.contents key = none ↔ key ∉ ledger.keys := by
  rw [Ledger.contents, Option.map_eq_none_iff, List.find?_eq_none, mem_keys]
  constructor
  · rintro absent ⟨record, member, same⟩
    exact absent record member (by simpa using same)
  · intro absent record member same
    exact absent ⟨record, member, by simpa using same⟩

theorem stored_postings (inOrder : ledger.InOrder)
    (addressable : ledger.Addressable interval format) {record : Record}
    (member : record ∈ ledger.records) : Block.Stored interval record.postings := by
  have encodable := encodable_postingsOf (inOrder.documents record member)
    (inOrder.extents record member)
  refine ⟨encodable, ?_, ?_⟩
  · intro posting inside
    obtain ⟨entry, here, _, rfl⟩ := mem_postingsOf inside
    exact addressable.extents_lt record member entry here
  · refine Block.storable_of_length addressable.positive addressable.interval_lt
      (fun posting inside => (encodable.wellFormed posting inside).occurs) ?_
    obtain ⟨front, back, split⟩ := List.append_of_mem (List.mem_reverse.mpr member)
    have whole := length_written interval format ledger
    have limit := addressable.length_lt
    have postings : (ledger.written interval format).postings =
      blocksOf interval ledger.records.reverse := rfl
    rw [postings, blocks_middle split, List.length_append, List.length_append] at whole
    omega

theorem block?_index (inOrder : ledger.InOrder)
    (addressable : ledger.Addressable interval format) {record : Record}
    (member : record ∈ ledger.records) (name : String) :
    (ledger.index interval format name).block? record.key =
      .ok (some (Block.image interval record.postings)) := by
  obtain ⟨front, back, split⟩ := List.append_of_mem (List.mem_reverse.mpr member)
  have offset : (ledger.index interval format name).keys.get? record.key =
    some (blocksOf interval front).length := get?_middle inOrder split
  rw [block?, offset]
  dsimp only
  rw [blockAt_middle inOrder addressable split]
  rfl

/-- The index hands out the block of each key that was begun, and of no other. -/
theorem index_serves (inOrder : ledger.InOrder)
    (addressable : ledger.Addressable interval format) (name : String) :
    (ledger.index interval format name).Serves interval ledger.contents := by
  constructor
  · intro key postings known
    obtain ⟨record, member, rfl, rfl⟩ := contents_eq_some known
    exact ⟨stored_postings inOrder addressable member,
      block?_index inOrder addressable member name⟩
  · intro key unknown
    have absent : (ledger.index interval format name).keys.get? key = none := by
      refine Dictionary.get?_eq_none ?_
      rw [keys_entriesFrom, List.map_reverse]
      exact contents_eq_none.mp unknown
    rw [block?, absent]

theorem contains_index (inOrder : ledger.InOrder) (name : String) (key : Key) :
    (ledger.index interval format name).contains key = true ↔ key ∈ ledger.keys := by
  constructor
  · intro held
    apply Decidable.byContradiction
    intro absent
    have unknown : (ledger.index interval format name).keys.get? key = none := by
      refine Dictionary.get?_eq_none ?_
      rwa [keys_entriesFrom, List.map_reverse]
    rw [contains, Dictionary.contains, unknown] at held
    cases held
  · intro begun
    obtain ⟨record, member, rfl⟩ := mem_keys.mp begun
    obtain ⟨front, back, split⟩ := List.append_of_mem (List.mem_reverse.mpr member)
    have offset : (ledger.index interval format name).keys.get? record.key =
      some (blocksOf interval front).length := get?_middle inOrder split
    rw [contains, Dictionary.contains, offset]
    rfl

/-! ## Walking over the keys -/

namespace KeyWalk

/-- The walk behind some steps. -/
def after (index : Index) : Nat → KeyWalk
  | 0 => start index
  | steps + 1 => (after index steps).next index

/-- A walk visits the entries in their order and has ended behind the last one. -/
theorem after_current {index : Index} (ascending : Dictionary.Ascending index.keys.entries)
    (steps : Nat) : (after index steps).current = index.keys.entries[steps]? := by
  induction steps with
  | zero => exact List.head?_eq_getElem?
  | succ steps induction =>
      rw [after, next, induction]
      cases here : index.keys.entries[steps]? with
      | none =>
          have behind := List.getElem?_eq_none_iff.mp here
          exact (List.getElem?_eq_none (Nat.le_succ_of_le behind)).symm
      | some entry =>
          obtain ⟨inside, same⟩ := List.getElem?_eq_some_iff.mp here
          have split : index.keys.entries =
              index.keys.entries.take steps ++ (entry.1, entry.2) ::
                index.keys.entries.drop (steps + 1) := by
            rw [← same, ← List.drop_eq_getElem_cons inside, List.take_append_drop]
          rw [split] at ascending
          have following := Dictionary.after?_middle ascending
          rw [← split] at following
          exact following.trans List.head?_drop

/-- A walk visits exactly the keys that were begun, and then stays at the end. -/
theorem after_key? (inOrder : ledger.InOrder) (name : String) (steps : Nat) :
    (after (ledger.index interval format name) steps).key? = ledger.keys[steps]? := by
  rw [key?, after_current (entries_ascending inOrder), Ledger.keys, ← List.map_reverse,
    ← keys_entriesFrom interval 0, List.getElem?_map]
  rfl

theorem after_block (inOrder : ledger.InOrder)
    (addressable : ledger.Addressable interval format) {front back : List Record} {record : Record}
    (split : ledger.records.reverse = front ++ record :: back) (name : String) :
    (after (ledger.index interval format name) front.length).block
        (ledger.index interval format name) =
      .ok (record.key, Block.image interval record.postings) := by
  have current : (after (ledger.index interval format name) front.length).current =
      some (record.key, (blocksOf interval front).length) := by
    have place := length_entriesFrom interval 0 front
    rw [after_current (entries_ascending inOrder)]
    change (entriesFrom interval 0 ledger.records.reverse)[front.length]? = _
    rw [entries_middle split, ← place, List.getElem?_append_right (Nat.le_refl _), Nat.sub_self]
    rfl
  rw [block, current]
  dsimp only
  rw [blockAt_middle inOrder addressable split]
  rfl

end KeyWalk

end Index

end Concordance
