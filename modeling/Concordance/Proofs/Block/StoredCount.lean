import Concordance.Proofs.Block.Counting
import Concordance.Proofs.Block.Refusal
import Concordance.Proofs.Block.RoundTrip

/-!
# Counts that are stored

The summary of a block adds up the lengths of the lists of extents, and the stream of counts has
what is left of each length in 32 bits.  A reader that only counts shows the latter.  So it counts
what the builder counted if no document has `2 ^ 32` extents or more, and never otherwise.
-/

namespace Concordance

namespace Block

namespace Reader

/-- What a reader that only counts shows of a posting. -/
def Tally.stored (summary : Summary) (posting : Posting) : Tally :=
  ⟨summary, some posting.doc, storedCount posting.extents, false⟩

/-- What a reader shows behind the last posting. -/
def Tally.ended (summary : Summary) : Tally := ⟨summary, none, 0, true⟩

variable {interval : Nat} {front back postings : List Posting} {posting : Posting}
  {reader : Reader}

/-- An advance that leaves the extents unread shows the stored count, unless it is zero. -/
theorem advance_stored_count (between : Between interval false front (posting :: back) reader)
    (above : ∀ last, lastDoc? front = some last → last < posting.doc) :
    advance.Ends reader
      (fun _ after => storedCount posting.extents ≠ 0 ∧
        Between interval false (front ++ [posting]) back after ∧
        after.tally = Tally.stored (Summary.of (front ++ posting :: back)) posting)
      (fun cause => storedCount posting.extents = 0 ∧ cause = .zeroCount posting.doc) := by
  have unfinished : reader.decoded ≠ reader.layout.summary.docs := by
    rw [between.decoded, between.layout]
    simp only [Layout.of, Summary.of, List.length_append, List.length_cons]
    omega
  have counted := @readStored_ahead posting back
    { reader with
      docBytes := GapList.bytesFrom (some posting.doc) (docsOf back)
      base := some posting.doc } between.countBytes
  have unread : ¬reader.withExtents = true := by
    rw [between.mode]
    exact Bool.false_ne_true
  unfold advance
  refine Step.Ends.behind (Step.get_run reader) ?_
  rw [if_neg unfinished]
  refine Step.Ends.behind (readNext_ahead between above) ?_
  refine Step.Ends.behind (Step.modify_run _ _) ?_
  refine Step.Ends.behind counted ?_
  by_cases zero : storedCount posting.extents = 0
  · rw [if_pos zero]
    exact Step.ends_failed rfl ⟨zero, rfl⟩
  · rw [if_neg zero, if_neg unread]
    refine Step.ends_done rfl ⟨zero, ?_, ?_⟩
    · have passed := between_passed between
      exact ⟨passed.layout, passed.groups, between.mode, passed.docBytes, passed.countBytes,
        fun reads => absurd reads Bool.false_ne_true, passed.base, passed.decoded, between.unread⟩
    · simp only [tally, Tally.stored, summary, between.layout]
      rfl

/-- A reader in front of postings shows the stored count of each, up to the first one that is
zero. -/
theorem advance_all (ascending : Ascending (front ++ back))
    (between : Between interval false front back reader) :
    (advance >>= fun _ => watch (List.replicate back.length (.move .advance))).Ends reader
      (fun shown _ => (∀ posting ∈ back, storedCount posting.extents ≠ 0) ∧
        shown = back.map (Tally.stored (Summary.of (front ++ back))) ++
          [Tally.ended (Summary.of (front ++ back))])
      (fun cause => ∃ posting ∈ back, storedCount posting.extents = 0 ∧
        cause = .zeroCount posting.doc) := by
  induction back generalizing front reader with
  | nil =>
      refine Step.Ends.behind (advance_end between) (Step.ends_done rfl ⟨nofun, ?_⟩)
      simp only [tally, summary, exhaust, between.layout]
      rfl
  | cons posting back induction =>
      have regrouped : (front ++ [posting]) ++ back = front ++ posting :: back := by simp
      refine ((advance_stored_count between ascending.middle).imp (fun _ _ => id) ?_).bind ?_
      · rintro cause ⟨zero, same⟩
        exact ⟨posting, List.mem_cons_self, zero, same⟩
      rintro _ middle ⟨nonzero, betweenMiddle, shows⟩
      have later := induction (regrouped.symm ▸ ascending) betweenMiddle
      rw [regrouped] at later
      rw [List.length_cons, List.replicate_succ, watch]
      refine Step.Ends.behind (Step.get_run middle) ?_
      -- The advance of the first call is the one that the hypothesis begins with.
      rw [← bind_assoc]
      refine (later.imp (fun _ _ => id) ?_).bind ?_
      · rintro cause ⟨other, member, zero, same⟩
        exact ⟨other, List.mem_cons_of_mem _ member, zero, same⟩
      · rintro shown last ⟨others, rfl⟩
        refine Step.ends_done rfl ⟨List.forall_mem_cons.mpr ⟨nonzero, others⟩, ?_⟩
        rw [shows]
        rfl

theorem tallies_of_parse {bytes : List UInt8} {layout : Layout}
    (parsed : Layout.parse bytes = .ok layout) (withExtents : Bool) (calls : List Call) :
    tallies bytes withExtents calls =
      (advance >>= fun _ => watch calls).evaluate (atStart layout withExtents) := by
  unfold tallies open? Step.evaluate
  rw [parsed, Step.ok_bind, Step.bind_run]
  cases advance (atStart layout withExtents) <;> rfl

/-- Counting the postings of a block, with stored counts, succeeds if none of these is zero. -/
theorem tallies_image (ascending : Ascending postings)
    (occurs : ∀ posting ∈ postings, posting.extents ≠ []) (storable : Storable interval postings) :
    let read := tallies (image interval postings) false
      (List.replicate postings.length (.move .advance))
    (read = .ok (postings.map (Tally.stored (Summary.of postings)) ++
        [Tally.ended (Summary.of postings)]) ∧
      ∀ posting ∈ postings, storedCount posting.extents ≠ 0) ∨
    ∃ posting ∈ postings, storedCount posting.extents = 0 ∧
      read = .error (.zeroCount posting.doc) := by
  intro read
  have parsed := parse_image ascending occurs storable
  have opened : read = _ := tallies_of_parse parsed false _
  have ends := @advance_all interval [] postings _ ascending
    (between_atStart interval postings false)
  rw [opened, Step.evaluate]
  cases run : (advance >>= fun _ => watch (List.replicate postings.length (.move .advance)))
      (atStart (Layout.of interval postings) false) with
  | ok shown after =>
      obtain ⟨nonzero, same⟩ := ends.of_ok run
      exact .inl ⟨congrArg Except.ok same, nonzero⟩
  | error cause after =>
      obtain ⟨posting, member, zero, same⟩ := ends.of_error run
      exact .inr ⟨posting, member, zero, congrArg Except.error same⟩

theorem counts_stored (summary : Summary) (postings : List Posting) :
    (postings.map (Tally.stored summary) ++ [Tally.ended summary]).map Tally.count =
      (postings.map fun posting => storedCount posting.extents) ++ [0] := by
  simp only [List.map_append, List.map_map, List.map_singleton]
  rfl

end Reader

/-! ## Counts and lengths -/

theorem storedCount_le {α : Type} (members : List α) : storedCount members ≤ members.length :=
  Nat.mod_le _ _

theorem storedCount_lt {α : Type} {members : List α} (long : 4294967296 ≤ members.length) :
    storedCount members < members.length :=
  Nat.lt_of_lt_of_le (Nat.mod_lt _ (by decide)) long

/-- Stored counts add up to less than the summary says if one of them is not the whole length. -/
theorem sum_storedCount_lt {postings : List Posting} {posting : Posting}
    (member : posting ∈ postings) (long : 4294967296 ≤ posting.extents.length) :
    (postings.map fun posting => storedCount posting.extents).sum < (Summary.of postings).total :=
  List.sum_lt_sum _ _ (fun other _ => storedCount_le other.extents)
    ⟨posting, member, storedCount_lt long⟩

namespace Builder

theorem positive_lt {interval : Nat} (addressable : interval < Layout.addressLimit) :
    max interval 1 < Layout.addressLimit :=
  max_lt addressable (by decide)

theorem stored_of_attempt {interval : Nat} {offers : List Offer}
    (addressable : interval < Layout.addressLimit)
    (short : (attempt offers (new interval)).2.finish.length < 2305843009213693952) :
    let postings := (accepted offers (attempt offers (new interval)).1).map Offer.posting
    (attempt offers (new interval)).2 = of (max interval 1) postings ∧ Encodable postings ∧
      Storable (max interval 1) postings := by
  intro postings
  obtain ⟨holds, encodable⟩ : (attempt offers (new interval)).2 = of (max interval 1) postings ∧
    Encodable postings := attempt_new interval offers
  rw [holds] at short
  exact ⟨holds, encodable, storable_of_length (by omega) (positive_lt addressable)
    (fun posting member => (encodable.wellFormed posting member).occurs) short⟩

/-- Behind any offers of which those taken have less than `2 ^ 32` extents each, the block is
decoded to the documents that were taken with all their extents, and a reader that only counts
shows the lengths, which add up to the total of the summary and have its greatest count.  With a
longer document the reader fails, or its counts add up to less. -/
theorem attempt_counted (interval : Nat) (offers : List Offer)
    (addressable : interval < Layout.addressLimit)
    (short : (attempt offers (new interval)).2.finish.length < 2305843009213693952) :
    let builder := (attempt offers (new interval)).2
    let taken := accepted offers (attempt offers (new interval)).1
    let read := Reader.tallies builder.finish false
      (List.replicate taken.length (.move .advance))
    ((∀ offer ∈ taken, offer.2.length < 4294967296) →
      decode builder.finish =
        .ok (taken.map fun offer => .ok ⟨offer.1, offer.2.length, offer.2⟩) ∧
      ∃ shown, read = .ok shown ∧
        shown = (taken.map fun offer => ⟨builder.summary, some offer.1, offer.2.length, false⟩) ++
          [⟨builder.summary, none, 0, true⟩] ∧
        builder.summary.total = (shown.map Reader.Tally.count).sum ∧
        builder.summary.largest = (shown.map Reader.Tally.count).foldl max 0) ∧
    ∀ offer ∈ taken, 4294967296 ≤ offer.2.length → ∀ shown, read = .ok shown →
      (shown.map Reader.Tally.count).sum < builder.summary.total := by
  intro builder taken read
  obtain ⟨holds, encodable, storable⟩ : builder = of (max interval 1) (taken.map Offer.posting) ∧
    Encodable (taken.map Offer.posting) ∧
    Storable (max interval 1) (taken.map Offer.posting) := stored_of_attempt addressable short
  have summary : builder.summary = Summary.of (taken.map Offer.posting) := by
    rw [holds]
    rfl
  have block : builder.finish = image (max interval 1) (taken.map Offer.posting) := by
    rw [holds]
    rfl
  have occurs : ∀ posting ∈ taken.map Offer.posting, posting.extents ≠ [] :=
    fun posting member => (encodable.wellFormed posting member).occurs
  have reads := Reader.tallies_image encodable.ascending occurs storable
  rw [← block, List.length_map, ← summary] at reads
  constructor
  · intro small
    have whole : ∀ posting ∈ taken.map Offer.posting,
        storedCount posting.extents = posting.extents.length := by
      intro posting member
      obtain ⟨offer, inside, rfl⟩ := List.mem_map.mp member
      exact Nat.mod_eq_of_lt (small offer inside)
    constructor
    · have counts : ∀ posting ∈ taken.map Offer.posting, posting.count < 4294967296 := by
        intro posting member
        obtain ⟨offer, inside, rfl⟩ := List.mem_map.mp member
        exact small offer inside
      obtain ⟨walk, opened, handed, _⟩ := Walk.open?_image ⟨encodable, counts, storable⟩
      unfold decode
      rw [block, opened, Step.ok_bind, handed, List.map_map]
      rfl
    · rcases reads with ⟨shows, _⟩ | ⟨posting, member, zero, _⟩
      · refine ⟨_, shows, ?_, ?_, ?_⟩
        · rw [List.map_map]
          refine congrArg (· ++ _) (List.map_congr_left fun offer member => ?_)
          have count := whole offer.posting (List.mem_map_of_mem member)
          simp only [Function.comp_apply, Reader.Tally.stored, count]
          rfl
        · rw [Reader.counts_stored, List.map_congr_left whole, List.sum_append, summary]
          rfl
        · rw [Reader.counts_stored, List.map_congr_left whole, List.foldl_append, summary]
          exact (Nat.max_zero _).symm
      · rw [whole posting member] at zero
        exact absurd (List.length_eq_zero_iff.mp zero) (occurs posting member)
  · intro offer member long shown same
    rcases reads with ⟨shows, _⟩ | ⟨_, _, _, failed⟩
    · cases shows.symm.trans same
      rw [Reader.counts_stored, List.sum_append, summary]
      exact sum_storedCount_lt (List.mem_map_of_mem member) long
    · cases failed.symm.trans same

/-- Two documents in groups of one, and one between them that is refused. -/
theorem attempt_counted_groups :
    let first : Offer := (.ofNat 3, [.ofNats 0 1, .ofNats 0 4])
    let again : Offer := (.ofNat 3, [.ofNats 5 6])
    let last : Offer := (.ofNat 9, [.ofNats 2 2])
    let left := attempt [first, again, last] (new 1)
    left.1 = [.ok (), .error (.docNotAfter (.ofNat 3) (.ofNat 3)), .ok ()] ∧
    decode left.2.finish = .ok [.ok ⟨.ofNat 3, 2, first.2⟩, .ok ⟨.ofNat 9, 1, last.2⟩] ∧
    ∃ shown, Reader.tallies left.2.finish false [.move .advance, .move .advance] = .ok shown ∧
      shown.map Reader.Tally.count = [2, 1, 0] ∧ left.2.summary.total = 3 ∧
      left.2.summary.largest = 2 := by
  intro first again last left
  have ends : left.1 = [.ok (), .error (.docNotAfter (.ofNat 3) (.ofNat 3)), .ok ()] := by cbv
  have length : left.2.finish.length = 23 := by cbv
  have taken : accepted [first, again, last] left.1 = [first, last] := by
    rw [ends]
    rfl
  obtain ⟨counts, _⟩ := attempt_counted 1 [first, again, last] (by decide)
    (by rw [length]; decide)
  rw [taken] at counts
  obtain ⟨decoded, shown, read, rfl, total, largest⟩ := counts (by decide)
  exact ⟨ends, decoded, _, read, rfl, total, largest⟩

/-! ## A count that is cut off -/

/-- Extents that all stand on the first position. -/
def pile (number : Nat) : List Extent := List.replicate number (.ofNats 0 0)

theorem pile_follows {number : Nat} (positive : 0 < number) (doc : DocId) :
    Follows none doc (pile number) where
  above := nofun
  occurs := by
    intro blank
    have length := congrArg List.length blank
    rw [pile, List.length_replicate] at length
    exact Nat.ne_of_gt positive length
  ordered := by
    constructor
    · intro extent member
      rw [List.eq_of_mem_replicate member]
      exact Nat.le_refl 0
    · exact List.pairwise_replicate.mpr (.inr (Nat.le_refl 0))

theorem length_spanBytes_pile (number : Nat) : (spanBytes 0 (pile number)).length = 2 * number := by
  unfold pile
  induction number with
  | zero => rfl
  | succ number induction =>
      have start : (Extent.ofNats 0 0).start = 0 := rfl
      have width : (Extent.ofNats 0 0).width = 0 := rfl
      have here : (Varint.encode 0).length = 1 := by
        rw [Varint.encode_small (by decide)]
        rfl
      rw [List.replicate_succ, spanBytes, List.length_append, List.length_append, start, width,
        Nat.sub_zero, here, induction]
      omega

theorem length_figures_le {figures : List Nat}
    (fits : ∀ figure ∈ figures, figure < Layout.addressLimit) :
    (figures.flatMap Varint.encode).length ≤ 10 * figures.length := by
  induction figures with
  | nil => exact Nat.le_refl 0
  | cons figure figures induction =>
      obtain ⟨here, later⟩ := List.forall_mem_cons.mp fits
      simp only [Layout.addressLimit] at here
      have first := @Varint.length_encode_le 9 figure (by omega)
      have rest := induction later
      simp only [List.flatMap_cons, List.length_append, List.length_cons]
      omega

/-- A block of one pile is hardly longer than its stream of extents. -/
theorem length_image_pile {interval number : Nat} {posting : Posting}
    (addressable : interval < Layout.addressLimit) (small : number < 576460752303423488)
    (piled : posting.extents = pile number) :
    (image interval [posting]).length < 2305843009213693952 := by
  have length : posting.extents.length = number := by rw [piled, pile, List.length_replicate]
  have summary : Summary.of [posting] = ⟨1, number, number⟩ := by
    simp [Summary.of, length]
  have skips : skipsFor 1 interval = 0 := Nat.zero_div interval
  have table : skipStream interval [posting] = [] := by
    simp only [skipStream, places, List.length_singleton, skips]
    rfl
  have docs : (docBytes [posting]).length ≤ 10 := by
    have bound := posting.doc.val_lt
    have held := @Varint.length_encode_le 9 posting.doc.val (by omega)
    simpa [docBytes, docsOf, GapList.bytesFrom, GapList.gap] using held
  have counts : (countBytes [posting]).length ≤ 10 := by
    have bound := storedCount_le posting.extents
    have held := @Varint.length_encode_le 9 (storedCount posting.extents) (by omega)
    simpa [countBytes] using held
  have extents : (extentBytes [posting]).length = 2 * number := by
    simp only [extentBytes, List.flatMap_cons, List.flatMap_nil, List.append_nil, piled,
      length_spanBytes_pile]
  have head := @length_figures_le [1, number, number, interval, 0, 0, (docBytes [posting]).length,
    (countBytes [posting]).length, (extentBytes [posting]).length] (by
      simp only [Layout.addressLimit] at addressable
      simp only [Layout.addressLimit, List.forall_mem_cons, List.not_mem_nil, false_implies,
        implies_true, and_true]
      omega)
  rw [image_eq, List.length_append, length_body, List.length_singleton, summary, skips, table,
    List.length_nil]
  dsimp only
  simp only [List.length_cons, List.length_nil] at head
  omega

/-- One document with as many extents as wrap around to a stored count of zero is taken, and the
summary has all of them, but the block cannot be read. -/
theorem pile_unreadable {interval number : Nat} {doc : DocId}
    (addressable : interval < Layout.addressLimit) (positive : 0 < number)
    (small : number < 576460752303423488) (wraps : number % 4294967296 = 0) :
    let left := attempt [(doc, pile number)] (new interval)
    left.1 = [.ok ()] ∧ left.2.summary = ⟨1, number, number⟩ ∧
      Reader.tallies left.2.finish false [.move .advance] = .error (.zeroCount doc) := by
  let offer : Offer := (doc, pile number)
  have length : (pile number).length = number := List.length_replicate
  have run : attempt [offer] (new interval) = ([.ok ()], of (max interval 1) [offer.posting]) := by
    rw [new_eq_of]
    rcases extend_of (max interval 1) [] offer with ⟨_, taken⟩ | ⟨outside, _⟩
    · exact attempt_ok taken
    · exact absurd (pile_follows positive doc) outside
  obtain ⟨_, encodable, storable⟩ := @stored_of_attempt interval [offer] addressable
    (by rw [run]; exact length_image_pile (positive_lt addressable) small rfl)
  rw [run] at encodable storable
  have occurs : offer.posting.extents ≠ [] := (pile_follows positive doc).occurs
  rw [run]
  refine ⟨rfl, ?_, ?_⟩
  · simp [of, Summary.of, Offer.posting, offer, length]
  · rcases Reader.tallies_image encodable.ascending (by simpa [accepted] using occurs) storable with
      ⟨_, nonzero⟩ | ⟨posting, member, _, failed⟩
    · refine absurd ?_ (nonzero offer.posting List.mem_cons_self)
      rw [storedCount, Offer.posting, length, wraps]
    · rw [List.mem_singleton.mp member] at failed
      exact failed

/-- So `2 ^ 32` extents of one document are taken, and none of them is found again. -/
theorem attempt_counted_wraps :
    let left := attempt [(.ofNat 1, pile 4294967296)] (new 128)
    left.1 = [.ok ()] ∧ left.2.summary = ⟨1, 4294967296, 4294967296⟩ ∧
      Reader.tallies left.2.finish false [.move .advance] = .error (.zeroCount (.ofNat 1)) :=
  pile_unreadable (by decide) (by decide) (by decide) (by decide)

end Builder

end Block

end Concordance
