import Concordance.Block.Reader
import Concordance.Proofs.Block.Layout

/-!
# Reading an image

A reader of a block that a builder made always stands between two parts of the
postings: those decoded and those ahead.  Decoding the next posting moves one
of them over, and a skip entry moves a whole stretch.  From either, a reader
comes to the first posting at or behind a target.
-/

namespace Concordance

/-- A posting as a reader shows it, who may leave the extents unread. -/
def Posting.seen (withExtents : Bool) (posting : Posting) : Posting :=
  if withExtents then posting else { posting with extents := [] }

namespace Block

/-- Postings whose block can be read back. -/
structure Stored (interval : Nat) (postings : List Posting) : Prop where
  encodable : Encodable postings
  counts_lt : ∀ posting ∈ postings, posting.count < 4294967296
  storable : Storable interval postings

/-- A block of postings is parsed to the layout that it was made of. -/
theorem Stored.parses {interval : Nat} {postings : List Posting}
    (stored : Stored interval postings) :
    Layout.parse (image interval postings) = .ok (Layout.of interval postings) := by
  have occurs : ∀ posting ∈ postings, posting.extents ≠ [] :=
    fun posting member => (stored.encodable.wellFormed posting member).occurs
  exact parse_image stored.encodable.ascending occurs stored.storable

namespace Reader

/-- The streams of a reader stand between the postings of two parts. -/
structure Between (interval : Nat) (withExtents : Bool) (front back : List Posting)
    (reader : Reader) : Prop where
  layout : reader.layout = Layout.of interval (front ++ back)
  groups : reader.groups = reader.layout.groups
  mode : reader.withExtents = withExtents
  docBytes : reader.docBytes = GapList.bytesFrom (lastDoc? front) (docsOf back)
  countBytes : reader.countBytes = Block.countBytes back
  extentBytes : withExtents = true → reader.extentBytes = Block.extentBytes back
  base : reader.base = lastDoc? front
  decoded : reader.decoded = front.length
  unread : withExtents = false → reader.extents = []

/-! ## One posting -/

theorem extentAt_gap {before : Nat} {extent : Extent} (above : before ≤ extent.start)
    (forward : extent.start ≤ extent.stop) :
    extentAt before (extent.start - before) extent.width = .ok extent := by
  obtain ⟨start, stop, startBound, stopBound⟩ := extent
  simp only at above forward
  simp only [Extent.width]
  unfold extentAt
  rw [dif_pos (by omega), dif_pos (by omega)]
  simp only [Except.ok.injEq, Extent.mk.injEq]
  constructor <;> omega

theorem gather_bytes (doc : DocId) (declared : Nat) {before : Nat} {extents : List Extent}
    (found : Array Extent) (rest : List UInt8)
    (ordered : Extent.inOrder before extents = true) :
    gather doc declared extents.length before ⟨spanBytes before extents ++ rest, found⟩ =
      .ok () ⟨rest, found ++ extents.toArray⟩ := by
  induction extents generalizing before found with
  | nil => simp [gather, spanBytes]
  | cons extent extents induction =>
      obtain ⟨⟨forward, above⟩, later⟩ := Extent.inOrder_cons_iff.mp ordered
      have startBound := extent.start_lt
      have stopBound := extent.stop_lt
      have present : (spanBytes before (extent :: extents) ++ rest).isEmpty = false := by
        have first := Varint.encode_ne_nil (extent.start - before)
        simp [spanBytes, first]
      have width : extent.width < 4294967296 := by
        simp only [Extent.width]
        omega
      have gapRead : Gathering.onBytes Varint.read32
          ⟨spanBytes before (extent :: extents) ++ rest, found⟩ =
            .ok (extent.start - before)
              ⟨Varint.encode extent.width ++ (spanBytes extent.start extents ++ rest), found⟩ := by
        apply Step.onPart_ok
        simp only [spanBytes, List.append_assoc]
        exact Varint.read32_encode _ (by omega)
      have widthRead : Gathering.onBytes Varint.read32
          ⟨Varint.encode extent.width ++ (spanBytes extent.start extents ++ rest), found⟩ =
            .ok extent.width ⟨spanBytes extent.start extents ++ rest, found⟩ :=
        Step.onPart_ok (Varint.read32_encode _ width)
      rw [List.length_cons, gather, Step.bind_ok _ (Step.get_run _), present,
        if_neg Bool.false_ne_true]
      dsimp only
      rw [Step.bind_ok _ gapRead, Step.bind_ok _ widthRead, Step.bind_ok _ (Step.ofExcept_run (extentAt_gap above forward) _),
        Step.bind_ok _ (Step.modify_run _ _), induction _ later]
      simp

theorem readExtents_bytes (reader : Reader) (doc : DocId) {extents : List Extent}
    {rest : List UInt8} (ordered : Extent.WellOrdered extents)
    (ahead : reader.extentBytes = spanBytes 0 extents ++ rest) :
    readExtents doc extents.length reader =
      .ok () { reader with extentBytes := rest, extents := extents } := by
  have gathered := gather_bytes doc extents.length #[] rest
    (Extent.inOrder_zero_iff.mpr ordered)
  unfold readExtents
  rw [Step.onPart_ok (by rw [ahead]; exact gathered)]
  simp

theorem storedCount_eq {posting : Posting} (wellFormed : posting.WellFormed)
    (bound : posting.count < 4294967296) : storedCount posting.extents = posting.count := by
  rw [wellFormed.counted] at bound ⊢
  exact Nat.mod_eq_of_lt bound

theorem seen_of_extents {posting : Posting} {withExtents : Bool} :
    posting.seen withExtents =
      ⟨posting.doc, posting.count, if withExtents then posting.extents else []⟩ := by
  unfold Posting.seen
  cases withExtents <;> rfl

variable {interval : Nat} {withExtents : Bool}

/-- The reader that has decoded a posting in front of some others. -/
def passed (reader : Reader) (posting : Posting) (back : List Posting) : Reader :=
  { reader with
    docBytes := GapList.bytesFrom (some posting.doc) (docsOf back)
    countBytes := Block.countBytes back
    extentBytes :=
      if reader.withExtents then Block.extentBytes back else reader.extentBytes
    base := some posting.doc
    decoded := reader.decoded + 1
    current := some posting.doc
    count := posting.count
    extents := if reader.withExtents then posting.extents else reader.extents }

theorem readNext_ahead {front back : List Posting} {posting : Posting} {reader : Reader}
    (between : Between interval withExtents front (posting :: back) reader)
    (above : ∀ last, lastDoc? front = some last → last < posting.doc) :
    onDocs (GapList.readNext reader.base) reader =
      .ok posting.doc
        { reader with docBytes := GapList.bytesFrom (some posting.doc) (docsOf back) } := by
  have ahead : reader.docBytes = Varint.encode (GapList.gap (lastDoc? front) posting.doc)
      ++ GapList.bytesFrom (some posting.doc) (docsOf back) := between.docBytes
  apply Step.onPart_ok
  rw [ahead, between.base]
  exact GapList.readNext_bytes _ above

theorem readStored_ahead {posting : Posting} {back : List Posting} {reader : Reader}
    (ahead : reader.countBytes = Block.countBytes (posting :: back)) :
    onCounts Varint.read32 reader =
      .ok (storedCount posting.extents) { reader with countBytes := Block.countBytes back } := by
  apply Step.onPart_ok
  rw [ahead, Block.countBytes, List.flatMap_cons]
  exact Varint.read32_encode _ (Nat.mod_lt _ (by decide))

theorem readCount_ahead {posting : Posting} {back : List Posting} {reader : Reader}
    (ahead : reader.countBytes = Block.countBytes (posting :: back))
    (wellFormed : posting.WellFormed) (bound : posting.count < 4294967296) :
    onCounts Varint.read32 reader =
      .ok posting.count { reader with countBytes := Block.countBytes back } := by
  rw [← storedCount_eq wellFormed bound]
  exact readStored_ahead ahead

theorem readExtents_ahead {posting : Posting} {back : List Posting} {reader : Reader}
    (ahead : reader.extentBytes = Block.extentBytes (posting :: back))
    (wellFormed : posting.WellFormed) :
    readExtents posting.doc posting.count reader =
      .ok () { reader with
        extentBytes := Block.extentBytes back
        extents := posting.extents } := by
  rw [wellFormed.counted]
  exact readExtents_bytes _ posting.doc wellFormed.ordered ahead

theorem advance_ahead {front back : List Posting} {posting : Posting} {reader : Reader}
    (between : Between interval withExtents front (posting :: back) reader)
    (above : ∀ last, lastDoc? front = some last → last < posting.doc)
    (wellFormed : posting.WellFormed) (bound : posting.count < 4294967296) :
    advance reader = .ok () (reader.passed posting back) := by
  have unfinished : reader.decoded ≠ reader.layout.summary.docs := by
    rw [between.decoded, between.layout]
    simp only [Layout.of, Summary.of, List.length_append, List.length_cons]
    omega
  have nonzero : posting.count ≠ 0 := by
    rw [wellFormed.counted]
    exact Nat.ne_of_gt (List.length_pos_iff.mpr wellFormed.occurs)
  let based : Reader :=
    { reader with
      docBytes := GapList.bytesFrom (some posting.doc) (docsOf back)
      base := some posting.doc }
  have counted := @readCount_ahead posting back based between.countBytes wellFormed bound
  unfold advance
  rw [Step.bind_ok _ (Step.get_run _), if_neg unfinished,
    Step.bind_ok _ (readNext_ahead between above), Step.bind_ok _ (Step.modify_run _ _),
    Step.bind_ok _ counted, if_neg nonzero]
  dsimp only
  by_cases mode : reader.withExtents = true
  · have extents := @readExtents_ahead posting back
      { based with countBytes := Block.countBytes back }
      (between.extentBytes (by rw [← between.mode, mode])) wellFormed
    rw [if_pos mode, Step.bind_ok _ extents, Step.modify_run]
    simp only [passed, based, if_pos mode]
  · rw [if_neg mode, Step.modify_run]
    simp only [passed, based, if_neg mode]

/-- The reader behind the next posting stands between the parts that it divides. -/
theorem between_passed {front back : List Posting} {posting : Posting} {reader : Reader}
    (between : Between interval withExtents front (posting :: back) reader) :
    Between interval withExtents (front ++ [posting]) back (reader.passed posting back) := by
  constructor
  · rw [List.append_assoc, List.singleton_append]
    exact between.layout
  · exact between.groups
  · exact between.mode
  · rw [lastDoc?_concat]
    rfl
  · rfl
  · intro reads
    simp only [passed, between.mode, reads, if_true]
  · rw [lastDoc?_concat]
    rfl
  · simp [passed, between.decoded]
  · intro skips
    simp only [passed, between.mode, skips, Bool.false_eq_true, if_false]
    exact between.unread skips

theorem posting?_passed {front back : List Posting} {posting : Posting} {reader : Reader}
    (between : Between interval withExtents front (posting :: back) reader) :
    (reader.passed posting back).posting? = some (posting.seen withExtents) := by
  rw [seen_of_extents, ← between.mode]
  cases mode : reader.withExtents with
  | false =>
      have unread := between.unread (by rw [← between.mode, mode])
      simp [posting?, passed, mode, unread]
  | true => simp [posting?, passed, mode]

/-- Behind the last posting nothing is left in the streams. -/
theorem advance_end {front : List Posting} {reader : Reader}
    (between : Between interval withExtents front [] reader) :
    advance reader = .ok () reader.exhaust := by
  have finished : reader.decoded = reader.layout.summary.docs := by
    rw [between.decoded, between.layout, List.append_nil]
    rfl
  have empty : reader.hasTrailingBytes = false := by
    unfold hasTrailingBytes
    rw [between.docBytes, between.countBytes, between.mode]
    cases withExtents with
    | false => rfl
    | true =>
        rw [between.extentBytes rfl]
        rfl
  unfold advance
  rw [Step.bind_ok _ (Step.get_run _), if_pos finished, empty, if_neg Bool.false_ne_true]
  rfl

/-! ## Starting -/

theorem between_atStart (interval : Nat) (postings : List Posting) (withExtents : Bool) :
    Between interval withExtents [] postings
      (atStart (Layout.of interval postings) withExtents) :=
  ⟨rfl, rfl, rfl, rfl, rfl, fun _ => rfl, rfl, rfl, fun _ => rfl⟩

end Reader

theorem Stored.middle {interval : Nat} {front back : List Posting} {posting : Posting}
    (stored : Stored interval (front ++ posting :: back)) :
    (∀ last, lastDoc? front = some last → last < posting.doc) ∧ posting.WellFormed ∧
      posting.count < 4294967296 := by
  have inside : posting ∈ front ++ posting :: back :=
    List.mem_append_right _ List.mem_cons_self
  exact ⟨stored.encodable.ascending.middle, stored.encodable.wellFormed posting inside,
    stored.counts_lt posting inside⟩

namespace Reader

variable {interval : Nat} {withExtents : Bool} {postings : List Posting} {reader : Reader}

theorem isDone_eq_false {doc : DocId} (shown : reader.current = some doc) :
    reader.isDone = false := by
  rw [isDone, shown]
  rfl

theorem isDone_eq_true (hidden : reader.current = none) : reader.isDone = true := by
  rw [isDone, hidden]
  rfl

theorem advance_stored {front back : List Posting} {posting : Posting}
    (stored : Stored interval (front ++ posting :: back))
    (between : Between interval withExtents front (posting :: back) reader) :
    ∃ after, advance reader = .ok () after ∧
      Between interval withExtents (front ++ [posting]) back after ∧
      after.posting? = some (posting.seen withExtents) := by
  obtain ⟨above, wellFormed, bound⟩ := stored.middle
  exact ⟨_, advance_ahead between above wellFormed bound, between_passed between,
    posting?_passed between⟩

theorem current_of_posting? {posting : Posting}
    (shown : reader.posting? = some (posting.seen withExtents)) :
    reader.current = some posting.doc := by
  unfold posting? at shown
  cases known : reader.current with
  | none => simp [known] at shown
  | some doc =>
      simp only [known, Option.map_some, Option.some.injEq] at shown
      have same := congrArg Posting.doc shown
      rw [seen_of_extents] at same
      exact congrArg some same

/-! ## Passed and ahead -/

/-- A reader that has passed some postings and shows the first of those ahead, or is done
behind the last one. -/
inductive Standing (interval : Nat) (withExtents : Bool) (passed : List Posting)
    (reader : Reader) : List Posting → Prop where
  | done (between : Between interval withExtents passed [] reader)
      (blank : reader.exhaust = reader) : Standing interval withExtents passed reader []
  | shows {posting : Posting} {back : List Posting}
      (between : Between interval withExtents (passed ++ [posting]) back reader)
      (shown : reader.posting? = some (posting.seen withExtents)) :
      Standing interval withExtents passed reader (posting :: back)

theorem between_exhaust {front back : List Posting}
    (between : Between interval withExtents front back reader) :
    Between interval withExtents front back reader.exhaust :=
  ⟨between.layout, between.groups, between.mode, between.docBytes, between.countBytes,
    between.extentBytes, between.base, between.decoded, fun _ => rfl⟩

/-- An advance between two parts shows the first posting of the part ahead. -/
theorem advance_between {passed ahead : List Posting}
    (stored : Stored interval (passed ++ ahead))
    (between : Between interval withExtents passed ahead reader) :
    ∃ after, advance reader = .ok () after ∧
      Standing interval withExtents passed after ahead := by
  cases ahead with
  | nil => exact ⟨reader.exhaust, advance_end between, .done (between_exhaust between) rfl⟩
  | cons posting back =>
      obtain ⟨after, advanced, betweenAfter, shown⟩ := advance_stored stored between
      exact ⟨after, advanced, .shows betweenAfter shown⟩

variable {passed ahead : List Posting}

theorem Standing.layout (standing : Standing interval withExtents passed reader ahead) :
    reader.layout = Layout.of interval (passed ++ ahead) := by
  cases standing with
  | done between => exact between.layout
  | shows between => simpa using between.layout

theorem Standing.current (standing : Standing interval withExtents passed reader ahead) :
    reader.current = ahead.head?.map Posting.doc := by
  cases standing with
  | done _ blank => exact (congrArg Reader.current blank).symm
  | shows _ shown => exact current_of_posting? shown

theorem open?_of_parse {bytes : List UInt8} {layout : Layout}
    (parsed : Layout.parse bytes = .ok layout)
    (advanced : advance (atStart layout withExtents) = .ok () reader) :
    open? bytes withExtents = .ok reader := by
  unfold open?
  rw [parsed, Step.ok_bind, advanced]
  rfl

theorem open?_of_advance (stored : Stored interval postings)
    (advanced : advance (atStart (Layout.of interval postings) withExtents) = .ok () reader) :
    open? (image interval postings) withExtents = .ok reader :=
  open?_of_parse stored.parses advanced

/-- A reader that has been opened has passed nothing. -/
theorem open?_standing (stored : Stored interval postings) (withExtents : Bool) :
    ∃ reader, open? (image interval postings) withExtents = .ok reader ∧
      Standing interval withExtents [] reader postings := by
  obtain ⟨reader, advanced, standing⟩ :=
    advance_between stored (between_atStart interval postings withExtents)
  exact ⟨reader, open?_of_advance stored advanced, standing⟩

/-! ## Advancing to a target -/

/-- Whether a posting lies below a target. -/
def isBelow (target : DocId) (posting : Posting) : Bool := posting.doc < target

theorem isBelow_iff {target : DocId} {posting : Posting} :
    isBelow target posting = true ↔ posting.doc.val < target.val := decide_eq_true_iff

theorem advanceTo_done {target : DocId} (finished : reader.current = none) (limit : Nat) :
    advanceTo target limit reader = .ok () reader := by
  cases limit with
  | zero => rfl
  | succ limit =>
      rw [advanceTo, Step.bind_ok _ (Step.get_run _), finished]
      rfl

theorem advanceTo_reached {target doc : DocId} (known : reader.current = some doc)
    (reached : target ≤ doc) (limit : Nat) : advanceTo target limit reader = .ok () reader := by
  cases limit with
  | zero => rfl
  | succ limit =>
      rw [advanceTo, Step.bind_ok _ (Step.get_run _), known]
      dsimp only
      rw [if_neg (DocId.not_lt.mpr reached)]
      rfl

theorem advanceTo_below {target doc : DocId} (known : reader.current = some doc)
    (below : doc < target) (limit : Nat) :
    advanceTo target (limit + 1) reader = (advance >>= fun _ => advanceTo target limit) reader := by
  rw [advanceTo, Step.bind_ok _ (Step.get_run _), known]
  dsimp only
  rw [if_pos below]

/-- Advancing to a target passes exactly the leading postings below it. -/
theorem advanceTo_standing {target : DocId} {limit : Nat}
    (stored : Stored interval (passed ++ ahead))
    (standing : Standing interval withExtents passed reader ahead)
    (enough : ahead.length ≤ limit) :
    ∃ after, advanceTo target limit reader = .ok () after ∧
      Standing interval withExtents (passed ++ ahead.takeWhile (isBelow target)) after
        (ahead.dropWhile (isBelow target)) := by
  induction ahead generalizing passed reader limit with
  | nil =>
      refine ⟨reader, advanceTo_done standing.current limit, ?_⟩
      simpa using standing
  | cons posting back induction =>
      by_cases less : posting.doc < target
      · obtain ⟨limit, rfl⟩ := Nat.exists_eq_succ_of_ne_zero (Nat.ne_zero_of_lt enough)
        have regrouped : passed ++ posting :: back = (passed ++ [posting]) ++ back := by simp
        cases standing with
        | shows between shown =>
            rw [regrouped] at stored
            obtain ⟨middle, advanced, standingMiddle⟩ := advance_between stored between
            obtain ⟨after, run, standingAfter⟩ :=
              induction stored standingMiddle (Nat.le_of_succ_le_succ enough)
            refine ⟨after, ?_, ?_⟩
            · rw [advanceTo_below (current_of_posting? shown) less, Step.bind_ok _ advanced]
              exact run
            · simpa [isBelow, less] using standingAfter
      · refine ⟨reader, advanceTo_reached standing.current (DocId.not_lt.mp less) limit, ?_⟩
        simpa [isBelow, less] using standing

/-! ## The first posting at or behind a target -/

/-- A reader that shows the first posting at or behind a floor, or is done if
there is none. -/
inductive AtFirst (interval : Nat) (withExtents : Bool) (postings : List Posting)
    (floor : Nat) (reader : Reader) : Prop where
  | done (layout : reader.layout = Layout.of interval postings)
      (mode : reader.withExtents = withExtents) (finished : reader.current = none)
      (below : ∀ posting ∈ postings, posting.doc.val < floor)
  | stands (front : List Posting) (posting : Posting) (back : List Posting)
      (split : front ++ posting :: back = postings)
      (between : Between interval withExtents (front ++ [posting]) back reader)
      (shown : reader.posting? = some (posting.seen withExtents))
      (behind : floor ≤ posting.doc.val)
      (below : ∀ earlier ∈ front, earlier.doc.val < floor)

theorem AtFirst.mode {floor : Nat} (first : AtFirst interval withExtents postings floor reader) :
    reader.withExtents = withExtents := by
  cases first with
  | done _ mode => exact mode
  | stands _ _ _ _ between => exact between.mode

theorem AtFirst.layout {floor : Nat} (first : AtFirst interval withExtents postings floor reader) :
    reader.layout = Layout.of interval postings := by
  cases first with
  | done layout => exact layout
  | stands front posting back split between =>
      rw [between.layout, List.append_assoc, List.singleton_append, split]

theorem AtFirst.reached {floor : Nat} {doc : DocId}
    (first : AtFirst interval withExtents postings floor reader)
    (current : reader.current = some doc) : floor ≤ doc.val := by
  cases first with
  | done _ _ finished =>
      rw [finished] at current
      cases current
  | stands _ posting _ _ _ shown behind =>
      rw [current_of_posting? shown] at current
      cases current
      exact behind

/-- Whoever has passed what lies below a floor, and no more, is on the first posting at or
behind it. -/
theorem Standing.atFirst {floor : Nat}
    (standing : Standing interval withExtents passed reader ahead)
    (behind : ∀ posting, ahead.head? = some posting → floor ≤ posting.doc.val)
    (below : ∀ posting ∈ passed, posting.doc.val < floor) :
    AtFirst interval withExtents (passed ++ ahead) floor reader := by
  have current := standing.current
  cases standing with
  | done between =>
      exact .done between.layout between.mode current (by simpa using below)
  | shows between shown =>
      exact .stands _ _ _ rfl between shown (behind _ rfl) below

/-- A reader that has been opened stands on the first posting of all. -/
theorem open?_image (stored : Stored interval postings) (withExtents : Bool) :
    ∃ reader, open? (image interval postings) withExtents = .ok reader ∧
      AtFirst interval withExtents postings 0 reader := by
  obtain ⟨reader, opened, standing⟩ := open?_standing stored withExtents
  exact ⟨reader, opened, standing.atFirst (fun _ _ => Nat.zero_le _) (by simp)⟩

end Reader

end Block

end Concordance
