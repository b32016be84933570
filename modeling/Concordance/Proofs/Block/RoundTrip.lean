import Concordance.Block.Walk
import Concordance.Proofs.Block.Reader

/-!
# Encoding and decoding a list of postings

A list that is encoded is handed out again by a walk over its block, posting by
posting, and the walk ends for good behind the last one.
-/

namespace Concordance

namespace Block

/-! ## Deciding what is encoded -/

theorem wellFormed_iff {posting : Posting} :
    posting.WellFormed ↔ posting.count = posting.extents.length ∧ posting.extents ≠ [] ∧
      Extent.WellOrdered posting.extents :=
  ⟨fun wellFormed => ⟨wellFormed.counted, wellFormed.occurs, wellFormed.ordered⟩,
    fun ⟨counted, occurs, ordered⟩ => ⟨counted, occurs, ordered⟩⟩

instance (posting : Posting) : Decidable posting.WellFormed :=
  decidable_of_iff _ wellFormed_iff.symm

theorem encodable_iff {postings : List Posting} :
    Encodable postings ↔
      (postings.Pairwise fun first second => first.doc < second.doc) ∧
        ∀ posting ∈ postings, posting.WellFormed :=
  ⟨fun encodable => ⟨encodable.ascending, encodable.wellFormed⟩,
    fun ⟨ascending, wellFormed⟩ => ⟨ascending, wellFormed⟩⟩

instance (postings : List Posting) : Decidable (Encodable postings) :=
  decidable_of_iff _ encodable_iff.symm

/-! ## The end of a block -/

namespace Reader

variable {interval : Nat} {withExtents : Bool} {front : List Posting} {reader : Reader}

/-- A reader behind the last posting stays there. -/
theorem advance_exhaust (between : Between interval withExtents front [] reader) :
    advance reader.exhaust = .ok () reader.exhaust :=
  advance_end (between_exhaust between)

end Reader

namespace Walk

theorem seen_true (posting : Posting) : posting.seen true = posting := rfl

/-- A walk that has nothing left, now or later. -/
def Ended (walk : Walk) : Prop := walk.next = (none, walk)

theorem next_underWay {reader after : Reader} {item : Option Posting}
    (advanced : Reader.advance reader = .ok () after) (shown : after.posting? = item) :
    (⟨reader, .underWay⟩ : Walk).next = (item.map .ok, ⟨after, .underWay⟩) := by
  simp only [next, advanced, shown]

theorem take_succ_some {limit : Nat} {found : Array (Except Error Posting)} {walk after : Walk}
    {item : Except Error Posting} (next : walk.next = (some item, after)) :
    walk.take (limit + 1) found = after.take limit (found.push item) := by
  simp only [take, next]

theorem take_succ_none {limit : Nat} {found : Array (Except Error Posting)} {walk after : Walk}
    (next : walk.next = (none, after)) : walk.take (limit + 1) found = (found.toList, after) := by
  simp only [take, next]

/-- A walk under way hands out the postings ahead and has ended then. -/
theorem take_underWay {interval : Nat} {front back : List Posting} {reader : Reader}
    {limit : Nat} {found : Array (Except Error Posting)}
    (stored : Stored interval (front ++ back))
    (between : Reader.Between interval true front back reader)
    (enough : back.length < limit) :
    ∃ after, (⟨reader, .underWay⟩ : Walk).take limit found =
        (found.toList ++ back.map .ok, after) ∧ after.Ended := by
  induction back generalizing front reader limit found with
  | nil =>
      obtain ⟨limit, rfl⟩ := Nat.exists_eq_succ_of_ne_zero (Nat.ne_of_gt enough)
      have next := next_underWay (Reader.advance_end between) (rfl : _ = none)
      refine ⟨⟨reader.exhaust, .underWay⟩, ?_, ?_⟩
      · rw [take_succ_none next, List.map_nil, List.append_nil]
      · exact next_underWay (Reader.advance_exhaust between) (rfl : _ = none)
  | cons posting back induction =>
      obtain ⟨limit, rfl⟩ :=
        Nat.exists_eq_succ_of_ne_zero (Nat.ne_of_gt (Nat.zero_lt_of_lt enough))
      obtain ⟨moved, advanced, betweenMoved, shown⟩ := Reader.advance_stored stored between
      have next := next_underWay advanced shown
      have regrouped : (front ++ [posting]) ++ back = front ++ posting :: back := by simp
      have fits : Stored interval ((front ++ [posting]) ++ back) := regrouped ▸ stored
      obtain ⟨after, taken, ended⟩ := @induction _ moved limit (found.push (.ok posting)) fits
        betweenMoved (Nat.lt_of_succ_lt_succ enough)
      refine ⟨after, ?_, ended⟩
      rw [take_succ_some next, seen_true, taken]
      simp

theorem open?_of_reader {bytes : List UInt8} {reader : Reader}
    (opened : Reader.open? bytes true = .ok reader) : open? bytes = .ok ⟨reader, .fresh⟩ := by
  unfold open?
  rw [opened]
  rfl

/-- A walk over a block that postings were encoded to hands out those postings. -/
theorem open?_image {interval : Nat} {postings : List Posting}
    (stored : Stored interval postings) :
    ∃ walk, open? (image interval postings) = .ok walk ∧
      walk.toList.1 = postings.map .ok ∧ walk.toList.2.Ended := by
  have start := Reader.between_atStart interval postings true
  cases postings with
  | nil =>
      have opened := Reader.open?_of_advance stored (Reader.advance_end start)
      refine ⟨⟨_, .fresh⟩, open?_of_reader opened, rfl, ?_⟩
      exact next_underWay (Reader.advance_exhaust start) (rfl : _ = none)
  | cons posting back =>
      have fits : Stored interval ([] ++ posting :: back) := stored
      obtain ⟨reader, advanced, between, shown⟩ := Reader.advance_stored fits start
      have next : (⟨reader, .fresh⟩ : Walk).next = (some (.ok posting), ⟨reader, .underWay⟩) := by
        simp only [Walk.next, shown, Option.map_some, seen_true]
      have docs : reader.summary.docs = back.length + 1 := by
        rw [Reader.summary, between.layout]
        rfl
      have enough : back.length < back.length + 2 := by omega
      obtain ⟨after, taken, ended⟩ :=
        @take_underWay _ _ back reader _ #[.ok posting] stored between enough
      have handed : (⟨reader, .fresh⟩ : Walk).toList = ((posting :: back).map .ok, after) := by
        unfold toList
        rw [docs, take_succ_some next]
        exact taken
      refine ⟨⟨reader, .fresh⟩, open?_of_reader (Reader.open?_of_advance stored advanced), ?_⟩
      rw [handed]
      exact ⟨rfl, ended⟩

end Walk

/-- A list of postings and an interval as a machine with addresses of 64 bits
holds them: counts have 32 bits, and a posting takes 40 bytes of at most
`2 ^ 63` in one piece. -/
structure Addressable (interval : Nat) (postings : List Posting) : Prop where
  interval_lt : interval < Layout.addressLimit
  counts_lt : ∀ posting ∈ postings, posting.count < 4294967296
  memory_lt : 40 * postings.length < 9223372036854775808

theorem stored_of_addressable {interval : Nat} {postings : List Posting}
    (addressable : Addressable interval postings) (encodable : Encodable postings)
    (bound : (image (max interval 1) postings).length < 9223372036854775808) :
    Stored (max interval 1) postings := by
  have intervalBound := addressable.interval_lt
  have memory := addressable.memory_lt
  have skips : skipsFor postings.length (max interval 1) ≤ postings.length :=
    Nat.le_trans (Nat.div_le_self _ _) (Nat.sub_le _ _)
  refine ⟨encodable, addressable.counts_lt, by omega, ?_, ?_, ?_⟩
  · simp only [Layout.addressLimit] at intervalBound ⊢
    omega
  · simp only [Layout.addressLimit]
    omega
  · simp only [Layout.maxSkips]
    omega

/-- Exactly the encodable lists have a block, every other one is refused as an
argument out of order, and walking over the block hands out the list again. -/
theorem encode_roundTrip {interval : Nat} {postings : List Posting}
    (addressable : Addressable interval postings) :
    ((∃ bytes, encode postings interval = .ok bytes) ↔ Encodable postings) ∧
      (∀ cause, encode postings interval = .error cause → cause.kind = .invalidArgument) ∧
      ∀ bytes, encode postings interval = .ok bytes → bytes.length < 9223372036854775808 →
        ∃ walk, Walk.open? bytes = .ok walk ∧ walk.toList.1 = postings.map .ok ∧
          walk.toList.2.Ended := by
  rcases encode_cases postings interval with ⟨done, encodable⟩ | ⟨cause, refused, kind, outside⟩
  · refine ⟨⟨fun _ => encodable, fun _ => ⟨_, done⟩⟩, ?_, ?_⟩
    · intro cause refused
      rw [done] at refused
      cases refused
    · intro bytes same bound
      rw [done] at same
      cases same
      exact Walk.open?_image (stored_of_addressable addressable encodable bound)
  · refine ⟨⟨?_, fun encodable => absurd encodable outside⟩, ?_, ?_⟩
    · rintro ⟨bytes, same⟩
      rw [refused] at same
      cases same
    · intro other same
      rw [refused] at same
      cases same
      exact kind
    · intro bytes same
      rw [refused] at same
      cases same

/-- The least and the greatest document and position, in groups of one. -/
theorem encode_roundTrip_extremes :
    let first : Posting := ⟨DocId.zero, 1, [⟨0, 4294967295, by omega, by omega⟩]⟩
    let last : Posting := ⟨DocId.top, 2,
      [⟨0, 0, by omega, by omega⟩, ⟨4294967295, 4294967295, by omega, by omega⟩]⟩
    Addressable 1 [first, last] ∧ Encodable [first, last] ∧
      ∃ bytes, encode [first, last] 1 = .ok bytes ∧ bytes.length = 40 ∧
        ∃ walk, Walk.open? bytes = .ok walk ∧ walk.toList.1 = [first, last].map .ok ∧
          walk.toList.2.Ended := by
  intro first last
  have addressable : Addressable 1 [first, last] := ⟨by decide, by decide, by decide⟩
  have encodable : Encodable [first, last] := by decide
  obtain ⟨⟨_, accepted⟩, _, handed⟩ := encode_roundTrip addressable
  obtain ⟨bytes, encoded⟩ := accepted encodable
  have whole : (encode [first, last] 1).toOption.map List.length = some 40 := by cbv
  have length : bytes.length = 40 := by
    rw [encoded] at whole
    exact Option.some.inj whole
  refine ⟨addressable, encodable, bytes, encoded, length, ?_⟩
  exact handed bytes encoded (by omega)

end Block

end Concordance
