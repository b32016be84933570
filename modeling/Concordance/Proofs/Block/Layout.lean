import Concordance.Block.Group
import Concordance.Proofs.Block.Acceptance

/-!
# The layout of an image

Reading the head of a block that a builder made gives back the streams and the
skip entries that it was made of, as long as the figures at its head fit their
words and its skip table fits the memory.
-/

namespace Concordance

namespace Block

/-- A block that a machine with addresses of 64 bits can hold. -/
structure Storable (interval : Nat) (postings : List Posting) : Prop where
  positive : 0 < interval
  interval_lt : interval < Layout.addressLimit
  length_lt : (image interval postings).length < Layout.addressLimit
  skips_lt : skipsFor postings.length interval < Layout.maxSkips

/-- The bytes of the skip entries of some postings. -/
def skipStream (interval : Nat) (postings : List Posting) : List UInt8 :=
  skipBytesFrom SkipEntry.origin (places interval postings)

/-- The streams behind the head of a block. -/
def body (interval : Nat) (postings : List Posting) : List UInt8 :=
  skipStream interval postings
    ++ (docBytes postings ++ (countBytes postings ++ extentBytes postings))

/-- The numbers at the head of a block. -/
def headOf (interval : Nat) (postings : List Posting) : Layout.Head :=
  { summary := Summary.of postings
    skipInterval := interval
    skipCount := skipsFor postings.length interval
    skipsLength := (skipStream interval postings).length
    docsLength := (docBytes postings).length
    countsLength := (countBytes postings).length
    extentsLength := (extentBytes postings).length }

/-- The layout that some postings have in a block. -/
def Layout.of (interval : Nat) (postings : List Posting) : Layout :=
  { summary := Summary.of postings
    skipInterval := interval
    skips := places interval postings
    docsStart := (image interval postings).length
      - (docBytes postings ++ (countBytes postings ++ extentBytes postings)).length
    docs := docBytes postings
    counts := countBytes postings
    extents := extentBytes postings }

theorem image_eq (interval : Nat) (postings : List Posting) :
    image interval postings =
      [postings.length, (Summary.of postings).total, (Summary.of postings).largest, interval,
        skipsFor postings.length interval, (skipStream interval postings).length,
        (docBytes postings).length, (countBytes postings).length,
        (extentBytes postings).length].flatMap Varint.encode ++ body interval postings := by
  simp only [image, Builder.finish, Builder.head, Builder.of, body, skipStream, Summary.of,
    List.size_toArray, Array.toList_append, List.append_assoc]

/-! ## The figures at the head -/

theorem length_le_length_docBytes (postings : List Posting) :
    postings.length ≤ (docBytes postings).length := by
  have known := GapList.length_le_length_bytesFrom none (docsOf postings)
  rwa [docsOf, List.length_map] at known

theorem length_le_length_spanBytes (before : Nat) (extents : List Extent) :
    2 * extents.length ≤ (spanBytes before extents).length := by
  induction extents generalizing before with
  | nil => exact Nat.le_refl 0
  | cons extent extents induction =>
      have rest := induction extent.start
      have gap := Varint.length_encode_pos (extent.start - before)
      have width := Varint.length_encode_pos extent.width
      simp only [spanBytes, List.length_append, List.length_cons]
      omega

theorem total_le_length_extentBytes (postings : List Posting) :
    2 * (Summary.of postings).total ≤ (extentBytes postings).length := by
  induction postings with
  | nil => exact Nat.le_refl 0
  | cons posting postings induction =>
      have first := length_le_length_spanBytes 0 posting.extents
      simp only [Summary.of, extentBytes, List.map_cons, List.sum_cons, List.flatMap_cons,
        List.length_append] at induction ⊢
      omega

theorem length_countBytes_ge (postings : List Posting) :
    postings.length ≤ (countBytes postings).length := by
  induction postings with
  | nil => exact Nat.le_refl 0
  | cons posting postings induction =>
      have first := Varint.length_encode_pos (storedCount posting.extents)
      simp only [countBytes, List.flatMap_cons, List.length_append, List.length_cons]
        at induction ⊢
      omega

theorem docs_le_total {postings : List Posting}
    (occurs : ∀ posting ∈ postings, posting.extents ≠ []) :
    postings.length ≤ (Summary.of postings).total := by
  induction postings with
  | nil => exact Nat.le_refl 0
  | cons posting postings induction =>
      have first := List.length_pos_iff.mpr (occurs posting List.mem_cons_self)
      have rest := induction fun later member => occurs later (List.mem_cons_of_mem _ member)
      simp only [Summary.of, List.map_cons, List.sum_cons, List.length_cons] at rest ⊢
      omega

private theorem foldl_max_le_sum (start : Nat) (figures : List Nat) :
    figures.foldl max start ≤ start + figures.sum := by
  induction figures generalizing start with
  | nil => exact Nat.le_refl start
  | cons figure figures induction =>
      have rest := induction (max start figure)
      simp only [List.foldl_cons, List.sum_cons]
      omega

theorem largest_le_total (postings : List Posting) :
    (Summary.of postings).largest ≤ (Summary.of postings).total := by
  have bound := foldl_max_le_sum 0 (postings.map fun posting => posting.extents.length)
  rwa [Nat.zero_add] at bound

/-- The summary of postings is one that some list of postings has. -/
theorem isConsistent_of {postings : List Posting}
    (occurs : ∀ posting ∈ postings, posting.extents ≠ []) :
    (Summary.of postings).isConsistent = true := by
  have docs := docs_le_total occurs
  have largest := largest_le_total postings
  have empty : (postings.length = 0) ↔ (Summary.of postings).total = 0 := by
    constructor
    · intro none
      rw [List.length_eq_zero_iff.mp none]
      rfl
    · intro none
      omega
  simp only [Summary.isConsistent, Bool.and_eq_true, decide_eq_true_eq, beq_iff_eq]
  refine ⟨⟨docs, largest⟩, ?_⟩
  rw [Bool.eq_iff_iff, beq_iff_eq, beq_iff_eq]
  exact empty

theorem length_body_le (interval : Nat) (postings : List Posting) :
    (body interval postings).length ≤ (image interval postings).length := by
  rw [image_eq, List.length_append]
  exact Nat.le_add_left _ _

theorem length_body (interval : Nat) (postings : List Posting) :
    (body interval postings).length =
      (skipStream interval postings).length + ((docBytes postings).length
        + ((countBytes postings).length + (extentBytes postings).length)) := by
  simp only [body, List.length_append]

/-- A skip entry takes four numbers. -/
theorem length_skipBytesFrom_ge (before : SkipEntry) (entries : List SkipEntry) :
    4 * entries.length ≤ (skipBytesFrom before entries).length := by
  induction entries generalizing before with
  | nil => exact Nat.le_refl 0
  | cons entry entries induction =>
      have rest := induction entry
      have doc := Varint.length_encode_pos (entry.lastDoc.val - before.lastDoc.val)
      have docs := Varint.length_encode_pos (entry.docsOffset - before.docsOffset)
      have counts := Varint.length_encode_pos (entry.countsOffset - before.countsOffset)
      have extents := Varint.length_encode_pos (entry.extentsOffset - before.extentsOffset)
      simp only [skipBytesFrom, skipBytes, List.length_append, List.length_cons]
      omega

/-- A block takes eight bytes for each skip entry: four for the entry itself and
four for the posting before it. -/
theorem skipsFor_le_length_image (interval : Nat) {postings : List Posting}
    (occurs : ∀ posting ∈ postings, posting.extents ≠ []) :
    8 * skipsFor postings.length interval ≤ (image interval postings).length := by
  have skips := length_skipBytesFrom_ge SkipEntry.origin (places interval postings)
  have docs := length_le_length_docBytes postings
  have counts := length_countBytes_ge postings
  have extents := total_le_length_extentBytes postings
  have total := docs_le_total occurs
  have inside := length_body_le interval postings
  have fewer : skipsFor postings.length interval ≤ postings.length - 1 := Nat.div_le_self _ _
  rw [length_places] at skips
  rw [length_body, skipStream] at inside
  omega

theorem length_image_pos (interval : Nat) (postings : List Posting) :
    0 < (image interval postings).length := by
  have head := Varint.length_encode_pos postings.length
  rw [image_eq, List.flatMap_cons, List.length_append, List.length_append]
  omega

/-- A block of less than `2 ^ 61` bytes can be read. -/
theorem storable_of_length {interval : Nat} {postings : List Posting} (positive : 0 < interval)
    (small : interval < Layout.addressLimit)
    (occurs : ∀ posting ∈ postings, posting.extents ≠ [])
    (bound : (image interval postings).length < 2305843009213693952) :
    Storable interval postings := by
  have skips := skipsFor_le_length_image interval occurs
  refine ⟨positive, small, ?_, ?_⟩
  · simp only [Layout.addressLimit]
    omega
  · simp only [Layout.maxSkips]
    omega

theorem readHead_image {interval : Nat} {postings : List Posting}
    (occurs : ∀ posting ∈ postings, posting.extents ≠ [])
    (storable : Storable interval postings) :
    Layout.readHead (image interval postings) =
      .ok (headOf interval postings) (body interval postings) := by
  have whole := length_body interval postings
  have inside := length_body_le interval postings
  have limit := storable.length_lt
  have docs := length_le_length_docBytes postings
  have total := total_le_length_extentBytes postings
  have largest := largest_le_total postings
  have skips : skipsFor postings.length interval ≤ postings.length :=
    Nat.le_trans (Nat.div_le_self _ _) (Nat.sub_le _ _)
  simp only [Layout.addressLimit] at limit
  have figures : Layout.checkFigures (Summary.of postings) interval
      (skipsFor postings.length interval) = .ok () := by
    have positive := storable.positive
    have nonzero : (interval == 0) = false := by simpa using Nat.ne_of_gt positive
    unfold Layout.checkFigures
    rw [isConsistent_of occurs, nonzero]
    simp only [Bool.not_true, Bool.or_self, Bool.false_eq_true, if_false]
    rw [if_neg (by simp [Summary.of])]
    rfl
  rw [image_eq]
  simp only [List.flatMap_cons, List.flatMap_nil, List.append_nil, List.append_assoc]
  unfold Layout.readHead
  rw [Step.bind_ok _ (Varint.read64_encode _ (by omega)),
    Step.bind_ok _ (Varint.read64_encode _ (by omega)),
    Step.bind_ok _ (Varint.read64_encode _ (by omega)),
    Step.bind_ok _ (Varint.read64_encode _ storable.interval_lt),
    Step.bind_ok _ (Varint.read64_encode _ (by omega))]
  apply (Step.bind_ok _ (Step.ofExcept_run figures _)).trans
  rw [Step.bind_ok _ (Varint.read64_encode _ (by omega)),
    Step.bind_ok _ (Varint.read64_encode _ (by omega)),
    Step.bind_ok _ (Varint.read64_encode _ (by omega)),
    Step.bind_ok _ (Varint.read64_encode _ (by omega))]
  rfl

/-! ## The skip entries -/

theorem take_append_of_le {postings : List Posting} {first second : Nat}
    (below : first ≤ second) :
    postings.take second = postings.take first ++ (postings.drop first).take (second - first) := by
  rw [← List.take_add, Nat.add_sub_cancel' below]

theorem placeAt_reaches (postings : List Posting) {first second : Nat}
    (below : first ≤ second) :
    Group.Reaches (placeAt postings first) (placeAt postings second) := by
  simp only [Group.Reaches, placeAt]
  rw [take_append_of_le below, docBytes_append, countBytes_append, extentBytes_append]
  simp only [List.length_append]
  exact ⟨Nat.le_add_right _ _, Nat.le_add_right _ _, Nat.le_add_right _ _⟩

theorem lastDoc?_take {postings : List Posting} {number : Nat}
    (inside : number < postings.length) :
    lastDoc? (postings.take (number + 1)) = some postings[number].doc := by
  rw [List.take_succ_eq_append_getElem inside, lastDoc?_concat]

theorem placeAt_lastDoc {postings : List Posting} {number : Nat}
    (inside : number < postings.length) :
    (placeAt postings (number + 1)).lastDoc = postings[number].doc := by
  simp only [placeAt, lastDoc?_take inside, Option.getD_some]

theorem placeAt_lastDoc_lt {postings : List Posting} (ascending : Ascending postings)
    {first second : Nat} (occupied : 0 < first) (below : first < second)
    (inside : second ≤ postings.length) :
    (placeAt postings first).lastDoc < (placeAt postings second).lastDoc := by
  obtain ⟨first, rfl⟩ := Nat.exists_eq_succ_of_ne_zero (Nat.ne_of_gt occupied)
  obtain ⟨second, rfl⟩ := Nat.exists_eq_succ_of_ne_zero (Nat.ne_of_gt (Nat.zero_lt_of_lt below))
  rw [placeAt_lastDoc (by omega), placeAt_lastDoc (by omega)]
  exact List.pairwise_iff_getElem.mp ascending _ _ _ _ (by omega)

/-- A place inside the postings lies inside the streams. -/
theorem headOf_holds (interval : Nat) (postings : List Posting) (number : Nat) :
    (headOf interval postings).holds (placeAt postings number) = true := by
  have whole := placeAt_reaches postings (Nat.le_max_left number postings.length)
  have all : postings.take (max number postings.length) = postings :=
    List.take_of_length_le (Nat.le_max_right _ _)
  simp only [Group.Reaches, placeAt, all] at whole
  simp only [Layout.Head.holds, Bool.and_eq_true]
  exact ⟨⟨decide_eq_true whole.1, decide_eq_true whole.2.1⟩, decide_eq_true whole.2.2⟩

theorem readSkip_bytes {before entry : SkipEntry} (rest : List UInt8)
    (doc : before.lastDoc ≤ entry.lastDoc) (reaches : Group.Reaches before entry)
    (docs : entry.docsOffset < Layout.addressLimit)
    (counts : entry.countsOffset < Layout.addressLimit)
    (extents : entry.extentsOffset < Layout.addressLimit) :
    Layout.readSkip before (skipBytes before entry ++ rest) = .ok entry rest := by
  obtain ⟨docsReach, countsReach, extentsReach⟩ := reaches
  have docLe := DocId.le_iff.mp doc
  have docBound := entry.lastDoc.val_lt
  have found : DocId.ofNat? (before.lastDoc.val + (entry.lastDoc.val - before.lastDoc.val)) =
      some entry.lastDoc := DocId.ofNat?_eq_some.mpr (by omega)
  have advance : ∀ {offset target : Nat}, offset ≤ target → target < Layout.addressLimit →
      Layout.advanceOffset offset (target - offset) = .ok target := by
    intro offset target below inside
    unfold Layout.advanceOffset
    rw [Nat.add_sub_cancel' below, if_pos inside]
  simp only [Layout.addressLimit] at docs counts extents
  unfold Layout.readSkip
  simp only [skipBytes, List.append_assoc]
  rw [Step.bind_ok _ (Varint.read64_encode _ (by omega)), found]
  apply (Step.bind_ok _ (Step.pure_run entry.lastDoc _)).trans
  rw [Step.bind_ok _ (Varint.read64_encode _ (by omega)),
    Step.bind_ok _ (Step.ofExcept_run (advance docsReach docs) _),
    Step.bind_ok _ (Varint.read64_encode _ (by omega)),
    Step.bind_ok _ (Step.ofExcept_run (advance countsReach counts) _),
    Step.bind_ok _ (Varint.read64_encode _ (by omega)),
    Step.bind_ok _ (Step.ofExcept_run (advance extentsReach extents) _)]
  rfl

/-- Skip entries that ascend and lie inside their streams are read back. -/
theorem readSkips_bytes {head : Layout.Head} {found : Array SkipEntry} {before : SkipEntry}
    {entries : List SkipEntry} (rest : List UInt8)
    (reaches : (before :: entries).Pairwise Group.Reaches)
    (ascending : entries.Pairwise fun first second => first.lastDoc < second.lastDoc)
    (behind : ∀ entry ∈ entries, before.lastDoc ≤ entry.lastDoc)
    (above : found.isEmpty = false → ∀ entry ∈ entries, before.lastDoc < entry.lastDoc)
    (inside : ∀ entry ∈ entries, head.holds entry = true)
    (docs : head.docsLength < Layout.addressLimit)
    (counts : head.countsLength < Layout.addressLimit)
    (extents : head.extentsLength < Layout.addressLimit) :
    Layout.readSkips head entries.length found before (skipBytesFrom before entries ++ rest) =
      .ok (found ++ entries.toArray) rest := by
  induction entries generalizing found before with
  | nil => simp [Layout.readSkips, skipBytesFrom]
  | cons entry entries induction =>
      have here := List.mem_cons_self (a := entry) (l := entries)
      obtain ⟨reach, reachesRest⟩ := List.pairwise_cons.mp reaches
      obtain ⟨less, ascendingRest⟩ := List.pairwise_cons.mp ascending
      have holds := inside entry here
      have holdsParts : (entry.docsOffset ≤ head.docsLength ∧
          entry.countsOffset ≤ head.countsLength) ∧
          entry.extentsOffset ≤ head.extentsLength := by
        simpa only [Layout.Head.holds, Bool.and_eq_true, decide_eq_true_eq] using holds
      have read := readSkip_bytes (skipBytesFrom entry entries ++ rest) (behind entry here)
        (reach entry here) (by omega) (by omega) (by omega)
      have later := @induction (found.push entry) entry reachesRest ascendingRest
        (fun other member => Nat.le_of_lt (less other member))
        (fun _ => less)
        (fun other member => inside other (List.mem_cons_of_mem _ member))
      have allowed : (!head.holds entry ||
          (!found.isEmpty && decide (entry.lastDoc ≤ before.lastDoc))) = false := by
        rw [holds]
        cases empty : found.isEmpty with
        | true => rfl
        | false =>
            have notLe : ¬entry.lastDoc ≤ before.lastDoc :=
              DocId.not_le.mpr (above empty entry here)
            simp [notLe]
      rw [List.length_cons, Layout.readSkips, skipBytesFrom, List.append_assoc,
        Step.bind_ok _ read, allowed]
      apply later.trans
      simp

theorem mem_places {interval : Nat} {postings : List Posting} {entry : SkipEntry}
    (member : entry ∈ places interval postings) :
    ∃ group, group < skipsFor postings.length interval ∧
      entry = placeAt postings ((group + 1) * interval) := by
  obtain ⟨group, inRange, rfl⟩ := List.mem_map.mp member
  exact ⟨group, List.mem_range.mp inRange, rfl⟩

theorem pairwise_places {interval : Nat} {postings : List Posting}
    {relation : SkipEntry → SkipEntry → Prop}
    (related : ∀ first second, first < second → second < skipsFor postings.length interval →
      relation (placeAt postings ((first + 1) * interval))
        (placeAt postings ((second + 1) * interval))) :
    (places interval postings).Pairwise relation := by
  unfold places
  rw [List.pairwise_map]
  refine List.Pairwise.imp_of_mem ?_ List.pairwise_lt_range
  intro first second _ inRange less
  exact related first second less (List.mem_range.mp inRange)

theorem places_reach (interval : Nat) (postings : List Posting) :
    (SkipEntry.origin :: places interval postings).Pairwise Group.Reaches := by
  refine List.pairwise_cons.mpr ⟨?_, pairwise_places ?_⟩
  · intro entry _
    exact ⟨Nat.zero_le _, Nat.zero_le _, Nat.zero_le _⟩
  · intro first second less _
    exact placeAt_reaches postings (Nat.mul_le_mul_right _ (by omega))

theorem places_ascend {interval : Nat} (positive : 0 < interval) {postings : List Posting}
    (ascending : Ascending postings) :
    (places interval postings).Pairwise fun first second => first.lastDoc < second.lastDoc := by
  apply pairwise_places
  intro first second less inside
  have bound := mul_le_of_lt_skipsFor inside
  refine placeAt_lastDoc_lt ascending (Nat.mul_pos (Nat.succ_pos _) positive) ?_ (by omega)
  exact Nat.mul_lt_mul_of_pos_right (by omega) positive

theorem readSkips_image {interval : Nat} {postings : List Posting}
    (ascending : Ascending postings) (storable : Storable interval postings) :
    Layout.readSkips (headOf interval postings) (skipsFor postings.length interval) #[]
        SkipEntry.origin (skipStream interval postings) =
      .ok (places interval postings).toArray [] := by
  have whole := length_body interval postings
  have inside := length_body_le interval postings
  have limit := storable.length_lt
  have holds : ∀ entry ∈ places interval postings,
      (headOf interval postings).holds entry = true := by
    intro entry member
    obtain ⟨group, _, rfl⟩ := mem_places member
    exact headOf_holds interval postings _
  have first : (#[] : Array SkipEntry).isEmpty = false →
      ∀ entry ∈ places interval postings, SkipEntry.origin.lastDoc < entry.lastDoc :=
    fun impossible => nomatch impossible
  have read := readSkips_bytes [] (places_reach interval postings)
    (places_ascend storable.positive ascending) (fun entry _ => Nat.zero_le entry.lastDoc.val)
    first holds (by simp only [headOf]; omega) (by simp only [headOf]; omega)
    (by simp only [headOf]; omega)
  rw [length_places, List.append_nil] at read
  apply read.trans
  simp

/-! ## The whole block -/

/-- Reading the head of an image cuts it into the streams it was made of. -/
theorem parse_image {interval : Nat} {postings : List Posting}
    (ascending : Ascending postings) (occurs : ∀ posting ∈ postings, posting.extents ≠ [])
    (storable : Storable interval postings) :
    Layout.parse (image interval postings) = .ok (Layout.of interval postings) := by
  have whole := length_body interval postings
  have inside := length_body_le interval postings
  have limit := storable.length_lt
  have small : ¬Layout.maxSkips ≤ (headOf interval postings).skipCount :=
    Nat.not_le.mpr storable.skips_lt
  have stop : ∀ {first length : Nat}, first + length < Layout.addressLimit →
      Layout.streamStop first length = .ok (first + length) := by
    intro first length bound
    unfold Layout.streamStop
    rw [if_pos bound]
  have skipBytes : (body interval postings).take (headOf interval postings).skipsLength =
      skipStream interval postings := List.take_left
  have streams : (body interval postings).drop (headOf interval postings).skipsLength =
      docBytes postings ++ (countBytes postings ++ extentBytes postings) := List.drop_left
  have docs : (docBytes postings ++ (countBytes postings ++ extentBytes postings)).take
      (headOf interval postings).docsLength = docBytes postings := List.take_left
  have behindDocs : (docBytes postings ++ (countBytes postings ++ extentBytes postings)).drop
      (headOf interval postings).docsLength = countBytes postings ++ extentBytes postings :=
    List.drop_left
  have counts : (countBytes postings ++ extentBytes postings).take
      (headOf interval postings).countsLength = countBytes postings := List.take_left
  have extents : (countBytes postings ++ extentBytes postings).drop
      (headOf interval postings).countsLength = extentBytes postings := List.drop_left
  have skips : (Layout.readSkips (headOf interval postings)
      (headOf interval postings).skipCount #[] SkipEntry.origin).evaluate
      (skipStream interval postings) = .ok (places interval postings).toArray :=
    Step.evaluate_ok (readSkips_image ascending storable)
  have docsStart : (image interval postings).length - (body interval postings).length
      + (headOf interval postings).skipsLength = (Layout.of interval postings).docsStart := by
    simp only [headOf, Layout.of, List.length_append]
    omega
  unfold Layout.parse
  rw [readHead_image occurs storable]
  dsimp only
  rw [stop (by simp only [headOf]; omega), Step.ok_bind,
    stop (by simp only [headOf]; omega), Step.ok_bind,
    stop (by simp only [headOf]; omega), Step.ok_bind,
    stop (by simp only [headOf]; omega), Step.ok_bind, skipBytes, streams]
  have covered : (image interval postings).length - (body interval postings).length
      + (headOf interval postings).skipsLength + (headOf interval postings).docsLength
      + (headOf interval postings).countsLength + (headOf interval postings).extentsLength =
      (image interval postings).length := by
    simp only [headOf]
    omega
  rw [if_neg (fun different => different covered), if_neg small]
  rw [skips, Step.ok_bind, docs, behindDocs, counts, extents, docsStart]
  rfl

end Block

end Concordance
