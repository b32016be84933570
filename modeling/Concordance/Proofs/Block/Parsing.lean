import Concordance.Block.Group
import Concordance.Proofs.Varint

/-!
# Parsing any bytes as a block

Whoever wrote the bytes, a layout that is cut from them is a proper one: its
streams lie side by side up to the last byte, and its skip entries ascend
inside of them.  Bytes of which no layout is cut are refused as corrupt, but
for two sums that are not checked before the machine does them: an offset that
a stored gap leads over the last address, and the size of a table with too many
entries.
-/

namespace Concordance

namespace Block

namespace Layout

/-- One skip entry lies behind another one: at a greater document, and in no
stream before it. -/
def Follows (before entry : SkipEntry) : Prop :=
  before.lastDoc < entry.lastDoc ∧ Group.Reaches before entry

/-- The figures of a head are those of some list of postings. -/
structure Head.Proper (head : Head) : Prop where
  consistent : head.summary.isConsistent = true
  positive : 0 < head.skipInterval
  counted : head.skipCount = skipsFor head.summary.docs head.skipInterval

/-- The bytes behind a head are as many as it announces. -/
def Head.Covers (head : Head) (body : List UInt8) : Prop :=
  body.length = head.skipsLength + head.docsLength + head.countsLength + head.extentsLength

/-- What a head announces is what a layout holds behind a table of skip entries. -/
structure Head.Announces (head : Head) (layout : Layout) (table : List UInt8) : Prop where
  summary : layout.summary = head.summary
  skipInterval : layout.skipInterval = head.skipInterval
  skips : layout.skips.length = head.skipCount
  table : table.length = head.skipsLength
  docs : layout.docs.length = head.docsLength
  counts : layout.counts.length = head.countsLength
  extents : layout.extents.length = head.extentsLength

/-- A layout that was cut from some bytes as their head announces it. -/
structure Proper (layout : Layout) (bytes : List UInt8) : Prop where
  /-- The streams stand side by side behind the head and the table of skip entries. -/
  adjacent : ∃ head front table,
    head.Announces layout table ∧
      readHead bytes = .ok head (table ++ (layout.docs ++ (layout.counts ++ layout.extents))) ∧
      bytes = front ++ (table ++ (layout.docs ++ (layout.counts ++ layout.extents))) ∧
      layout.docsStart = front.length + table.length
  stop_eq : layout.stop = bytes.length
  addressable : bytes.length < addressLimit
  consistent : layout.summary.isConsistent = true
  positive : 0 < layout.skipInterval
  skips_length : layout.skips.length = skipsFor layout.summary.docs layout.skipInterval
  ascending : layout.skips.Pairwise Follows
  inside : ∀ entry ∈ layout.skips,
    entry.docsOffset ≤ layout.docs.length ∧ entry.countsOffset ≤ layout.counts.length ∧
      entry.extentsOffset ≤ layout.extents.length

/-- The failures on some bytes that the machine finds and not the parser. -/
inductive Overflows (bytes : List UInt8) : Error → Prop where
  /-- The table has more entries than the memory has room for. -/
  | table {head : Head} {body : List UInt8} (opened : readHead bytes = .ok head body)
      (covers : head.Covers body) (wide : maxSkips ≤ head.skipCount) :
      Overflows bytes .skipTableOverflow
  /-- A gap that is stored in the table leads over the last address. -/
  | figure {head : Head} {body ahead rest : List UInt8} {offset gap : Nat}
      (opened : readHead bytes = .ok head body) (covers : head.Covers body)
      (stored : ahead <:+ body.take head.skipsLength)
      (taken : Varint.take64 ahead = .ok (gap, rest))
      (reached : offset ≤ body.length) (beyond : addressLimit ≤ offset + gap) :
      Overflows bytes .skipFigureOverflow

/-! ## The head -/

theorem read64_then {α : Type} {next : Nat → Step (List UInt8) α} {bytes ahead : List UInt8}
    {done : α → List UInt8 → Prop} {failed : Error → Prop} (stands : ahead <:+ bytes)
    (refused : ∀ cause, cause.kind = .corruptIndex → failed cause)
    (later : ∀ number rest, Varint.take64 ahead = .ok (number, rest) → rest <:+ bytes →
      (next number).Ends rest done failed) :
    (Varint.read64 >>= next).Ends ahead done failed := by
  apply ((Varint.read64_ends ahead).imp (fun _ _ taken => taken) refused).bind
  intro number rest taken
  exact later number rest taken ((Varint.take64_ok taken).1.trans stands)

theorem checkFigures_ends (summary : Summary) (skipInterval skipCount : Nat)
    (ahead : List UInt8) :
    (Step.ofExcept (checkFigures summary skipInterval skipCount)).Ends ahead
      (fun _ rest => rest = ahead ∧ summary.isConsistent = true ∧ 0 < skipInterval ∧
        skipCount = skipsFor summary.docs skipInterval)
      (fun cause => cause.kind = .corruptIndex) := by
  unfold checkFigures
  by_cases usable : (!summary.isConsistent || skipInterval == 0) = true
  · rw [if_pos usable]
    rfl
  · rw [if_neg usable]
    simp only [Bool.or_eq_true, Bool.not_eq_true', beq_iff_eq, not_or, Bool.not_eq_false] at usable
    by_cases counted : skipCount = skipsFor summary.docs skipInterval
    · rw [if_neg (not_not_intro counted)]
      exact ⟨rfl, usable.1, Nat.pos_of_ne_zero usable.2, counted⟩
    · rw [if_pos counted]
      rfl

theorem readHead_ends (bytes : List UInt8) :
    readHead.Ends bytes (fun head body => head.Proper ∧ body <:+ bytes)
      (fun cause => cause.kind = .corruptIndex) := by
  have refused : ∀ cause : Error, cause.kind = .corruptIndex → cause.kind = .corruptIndex :=
    fun _ => id
  unfold readHead
  refine read64_then (List.suffix_refl bytes) refused fun docs ahead _ stands => ?_
  refine read64_then stands refused fun total ahead _ stands => ?_
  refine read64_then stands refused fun largest ahead _ stands => ?_
  refine read64_then stands refused fun skipInterval ahead _ stands => ?_
  refine read64_then stands refused fun skipCount ahead _ stands => ?_
  apply (checkFigures_ends ⟨docs, total, largest⟩ skipInterval skipCount ahead).bind
  rintro _ rest ⟨rfl, consistent, positive, counted⟩
  refine read64_then stands refused fun skipsLength ahead _ stands => ?_
  refine read64_then stands refused fun docsLength ahead _ stands => ?_
  refine read64_then stands refused fun countsLength ahead _ stands => ?_
  refine read64_then stands refused fun extentsLength ahead _ stands => ?_
  exact Step.ends_done rfl ⟨⟨consistent, positive, counted⟩, stands⟩

/-! ## The table of skip entries -/

/-- The causes for which a table of skip entries is not read to its end: it is
corrupt, or a gap in it leads from an offset inside of the streams over the last
address. -/
def Refused (table : List UInt8) (limit : Nat) (cause : Error) : Prop :=
  cause.kind = .corruptIndex ∨
    cause = .skipFigureOverflow ∧ ∃ ahead gap rest offset, ahead <:+ table ∧
      Varint.take64 ahead = .ok (gap, rest) ∧ offset ≤ limit ∧ addressLimit ≤ offset + gap

theorem advance_then {α : Type} {next : Nat → Step (List UInt8) α} {table ahead : List UInt8}
    {offset limit : Nat} {done : α → List UInt8 → Prop} (stands : ahead <:+ table)
    (inside : offset ≤ limit)
    (later : ∀ reached rest, offset ≤ reached → rest <:+ table →
      (next reached).Ends rest done (Refused table limit)) :
    (do
      let gap ← Varint.read64
      let reached ← Step.ofExcept (advanceOffset offset gap)
      next reached).Ends ahead done (Refused table limit) := by
  refine read64_then stands (fun _ => .inl) fun gap rest taken standsRest => ?_
  unfold advanceOffset
  by_cases fits : offset + gap < addressLimit
  · rw [if_pos fits]
    exact later (offset + gap) rest (Nat.le_add_right offset gap) standsRest
  · rw [if_neg fits]
    exact .inr ⟨rfl, ahead, gap, rest, offset, stands, taken, inside, Nat.le_of_not_lt fits⟩

theorem readSkip_ends {before : SkipEntry} {table ahead : List UInt8} {limit : Nat}
    (stands : ahead <:+ table)
    (docs : before.docsOffset ≤ limit) (counts : before.countsOffset ≤ limit)
    (extents : before.extentsOffset ≤ limit) :
    (readSkip before).Ends ahead
      (fun entry rest => before.lastDoc ≤ entry.lastDoc ∧ Group.Reaches before entry ∧
        rest <:+ table)
      (Refused table limit) := by
  unfold readSkip
  refine read64_then stands (fun _ => .inl) fun gap ahead _ stands => ?_
  cases found : DocId.ofNat? (before.lastDoc.val + gap) with
  | none => exact .inl rfl
  | some lastDoc =>
      have behind : before.lastDoc ≤ lastDoc := by
        rw [DocId.le_iff, DocId.ofNat?_eq_some.mp found]
        exact Nat.le_add_right _ gap
      refine advance_then stands docs fun docsOffset ahead docsReach stands => ?_
      refine advance_then stands counts fun countsOffset ahead countsReach stands => ?_
      refine advance_then stands extents fun extentsOffset ahead extentsReach stands => ?_
      exact ⟨behind, ⟨docsReach, countsReach, extentsReach⟩, stands⟩

/-- The skip entries that were found lie behind each other and inside of their
streams, and none of them behind the last one read. -/
structure Lined (head : Head) (found : List SkipEntry) (before : SkipEntry) : Prop where
  ascending : found.Pairwise Follows
  inside : ∀ entry ∈ found, head.holds entry = true
  reaching : ∀ entry ∈ found, entry.lastDoc ≤ before.lastDoc ∧ Group.Reaches entry before
  holds : head.holds before = true

theorem lined_origin (head : Head) : Lined head [] SkipEntry.origin where
  ascending := .nil
  inside := fun _ member => nomatch member
  reaching := fun _ member => nomatch member
  holds := by simp [Head.holds, SkipEntry.origin]

theorem reaches_refl (entry : SkipEntry) : Group.Reaches entry entry :=
  ⟨Nat.le_refl _, Nat.le_refl _, Nat.le_refl _⟩

theorem reaches_trans {first second third : SkipEntry} (left : Group.Reaches first second)
    (right : Group.Reaches second third) : Group.Reaches first third :=
  ⟨left.1.trans right.1, left.2.1.trans right.2.1, left.2.2.trans right.2.2⟩

theorem holds_iff {head : Head} {entry : SkipEntry} :
    head.holds entry = true ↔
      entry.docsOffset ≤ head.docsLength ∧ entry.countsOffset ≤ head.countsLength ∧
        entry.extentsOffset ≤ head.extentsLength := by
  simp only [Head.holds, Bool.and_eq_true, decide_eq_true_eq, and_assoc]

theorem Lined.push {head : Head} {found : List SkipEntry} {before entry : SkipEntry}
    (lined : Lined head found before) (reaches : Group.Reaches before entry)
    (behind : before.lastDoc ≤ entry.lastDoc)
    (above : found ≠ [] → before.lastDoc < entry.lastDoc) (holds : head.holds entry = true) :
    Lined head (found ++ [entry]) entry where
  ascending := by
    apply List.pairwise_append.mpr ⟨lined.ascending, List.pairwise_singleton _ _, ?_⟩
    intro first member last isLast
    rw [List.mem_singleton.mp isLast]
    obtain ⟨upTo, reach⟩ := lined.reaching first member
    have less := above (List.ne_nil_of_mem member)
    exact ⟨Nat.lt_of_le_of_lt upTo less, reaches_trans reach reaches⟩
  inside := by
    intro other member
    rcases List.mem_append.mp member with earlier | last
    · exact lined.inside other earlier
    · rwa [List.mem_singleton.mp last]
  reaching := by
    intro other member
    rcases List.mem_append.mp member with earlier | last
    · obtain ⟨upTo, reach⟩ := lined.reaching other earlier
      exact ⟨Nat.le_trans upTo behind, reaches_trans reach reaches⟩
    · rw [List.mem_singleton.mp last]
      exact ⟨Nat.le_refl _, reaches_refl entry⟩
  holds := holds

/-- The table of skip entries is read to its end with all entries in line, or it
is refused. -/
theorem readSkips_ends {head : Head} {table ahead : List UInt8} {limit count : Nat}
    {found : Array SkipEntry} {before : SkipEntry} (stands : ahead <:+ table)
    (lined : Lined head found.toList before)
    (docs : head.docsLength ≤ limit) (counts : head.countsLength ≤ limit)
    (extents : head.extentsLength ≤ limit) :
    (readSkips head count found before).Ends ahead
      (fun all _ => all.size = found.size + count ∧ ∃ last, Lined head all.toList last)
      (Refused table limit) := by
  induction count generalizing ahead found before with
  | zero => exact Step.ends_done rfl ⟨rfl, before, lined⟩
  | succ count induction =>
      obtain ⟨docsIn, countsIn, extentsIn⟩ := holds_iff.mp lined.holds
      unfold readSkips
      apply (readSkip_ends stands (docsIn.trans docs) (countsIn.trans counts)
        (extentsIn.trans extents)).bind
      rintro entry rest ⟨behind, reaches, standsRest⟩
      by_cases outside :
          (!head.holds entry || (!found.isEmpty && entry.lastDoc ≤ before.lastDoc)) = true
      · rw [if_pos outside]
        exact .inl rfl
      · rw [if_neg outside]
        simp only [Bool.or_eq_true, Bool.not_eq_true', Bool.and_eq_true, not_or, not_and,
          Bool.not_eq_false, decide_eq_true_eq, Array.isEmpty_eq_false_iff] at outside
        have above : found.toList ≠ [] → before.lastDoc < entry.lastDoc := by
          intro occupied
          exact DocId.not_le.mp (outside.2 (by simpa using occupied))
        have next := lined.push reaches behind above outside.1
        rw [← Array.toList_push] at next
        refine (induction standsRest next).imp ?_ (fun _ => id)
        rintro all _ ⟨size, last⟩
        rw [Array.size_push] at size
        exact ⟨by omega, last⟩

/-! ## The whole block -/

theorem streamStop_cases (start length : Nat) :
    streamStop start length = .ok (start + length) ∧ start + length < addressLimit ∨
      streamStop start length = .error .streamOverflow := by
  unfold streamStop
  by_cases fits : start + length < addressLimit
  · exact .inl ⟨if_pos fits, fits⟩
  · exact .inr (if_neg fits)

/-- Going over all four streams leads to the end of the last one, or out of the addresses. -/
theorem streams_cases {α : Type} (head : Head) (start : Nat)
    (next : Nat → Nat → Except Error α) :
    let docsStart := start + head.skipsLength
    let stop := docsStart + head.docsLength + head.countsLength + head.extentsLength
    let run : Except Error α := do
      let docsStart ← streamStop start head.skipsLength
      let countsStart ← streamStop docsStart head.docsLength
      let extentsStart ← streamStop countsStart head.countsLength
      let stop ← streamStop extentsStart head.extentsLength
      next docsStart stop
    run = next docsStart stop ∧ stop < addressLimit ∨ run = .error .streamOverflow := by
  intro docsStart stop run
  rcases streamStop_cases start head.skipsLength with ⟨skips, _⟩ | refused
  on_goal 2 => exact .inr (by simp only [run, refused]; rfl)
  rcases streamStop_cases docsStart head.docsLength with ⟨docs, _⟩ | refused
  on_goal 2 => exact .inr (by simp only [run, docsStart, skips, Step.ok_bind, refused]; rfl)
  rcases streamStop_cases (docsStart + head.docsLength) head.countsLength with
    ⟨counts, _⟩ | refused
  on_goal 2 => exact .inr (by simp only [run, docsStart, skips, docs, Step.ok_bind, refused]; rfl)
  rcases streamStop_cases (docsStart + head.docsLength + head.countsLength) head.extentsLength
    with ⟨extents, fits⟩ | refused
  · refine .inl ⟨?_, fits⟩
    simp only [run, docsStart, skips, docs, counts, extents, Step.ok_bind]
    rfl
  · exact .inr (by simp only [run, docsStart, skips, docs, counts, Step.ok_bind, refused]; rfl)

/-- The table that a head covers is read to its end, or it is refused. -/
theorem readSkips_covered {head : Head} {body : List UInt8} (covers : head.Covers body) :
    (readSkips head head.skipCount #[] SkipEntry.origin).Ends (body.take head.skipsLength)
      (fun skips _ => skips.toList.length = head.skipCount ∧ ∃ last, Lined head skips.toList last)
      (Refused (body.take head.skipsLength) body.length) := by
  unfold Head.Covers at covers
  have read := @readSkips_ends head _ _ body.length head.skipCount #[] SkipEntry.origin
    (List.suffix_refl (body.take head.skipsLength)) (lined_origin head) (by omega) (by omega)
    (by omega)
  refine read.imp ?_ (fun _ => id)
  rintro skips _ ⟨size, last⟩
  exact ⟨by simpa using size, last⟩

/-- The layout that the head of a block and its skip entries give. -/
theorem proper_cut {head : Head} {front body : List UInt8} {skips : List SkipEntry}
    {last : SkipEntry} (proper : head.Proper)
    (opened : readHead (front ++ body) = .ok head body) (covers : head.Covers body)
    (addressable : (front ++ body).length < addressLimit)
    (length : skips.length = head.skipCount) (lined : Lined head skips last) :
    Proper
      { summary := head.summary
        skipInterval := head.skipInterval
        skips := skips
        docsStart := front.length + head.skipsLength
        docs := (body.drop head.skipsLength).take head.docsLength
        counts := ((body.drop head.skipsLength).drop head.docsLength).take head.countsLength
        extents := ((body.drop head.skipsLength).drop head.docsLength).drop head.countsLength }
      (front ++ body) := by
  have whole : body = body.take head.skipsLength ++ ((body.drop head.skipsLength).take
      head.docsLength ++ (((body.drop head.skipsLength).drop head.docsLength).take
        head.countsLength ++ ((body.drop head.skipsLength).drop head.docsLength).drop
          head.countsLength)) := by
    simp only [List.take_append_drop]
  unfold Head.Covers at covers
  have table : (body.take head.skipsLength).length = head.skipsLength := by
    rw [List.length_take]
    omega
  have docs : ((body.drop head.skipsLength).take head.docsLength).length = head.docsLength := by
    rw [List.length_take, List.length_drop]
    omega
  have counts : (((body.drop head.skipsLength).drop head.docsLength).take
      head.countsLength).length = head.countsLength := by
    rw [List.length_take, List.length_drop, List.length_drop]
    omega
  have extents : (((body.drop head.skipsLength).drop head.docsLength).drop
      head.countsLength).length = head.extentsLength := by
    rw [List.length_drop, List.length_drop, List.length_drop]
    omega
  refine ⟨⟨head, front, body.take head.skipsLength, ?_, ?_, ?_, ?_⟩, ?_, addressable,
    proper.consistent, proper.positive, length.trans proper.counted, lined.ascending, ?_⟩
  · exact ⟨rfl, rfl, length, table, docs, counts, extents⟩
  · rw [← whole]
    exact opened
  · rw [← whole]
  · rw [table]
  · simp only [stop, extentsStart, countsStart, docs, counts, extents, List.length_append]
    omega
  · intro entry member
    dsimp only
    rw [docs, counts, extents]
    exact holds_iff.mp (lined.inside entry member)

/-- Any bytes are cut into a proper layout, or refused at the one check they fail. -/
theorem parse_cases (bytes : List UInt8) :
    (∃ layout, parse bytes = .ok layout ∧ layout.Proper bytes) ∨
      ∃ cause, parse bytes = .error cause ∧
        (cause.kind = .corruptIndex ∨ Overflows bytes cause) := by
  have opened := readHead_ends bytes
  unfold parse
  cases run : readHead bytes with
  | error cause rest => exact .inr ⟨cause, rfl, .inl (opened.of_error run)⟩
  | ok head body =>
      obtain ⟨proper, front, rfl⟩ := opened.of_ok run
      have start : (front ++ body).length - body.length = front.length := by
        rw [List.length_append, Nat.add_sub_cancel]
      dsimp only
      rw [start]
      rcases streams_cases head front.length _ with ⟨streams, fits⟩ | refused
      on_goal 2 => rw [refused]; exact .inr ⟨_, rfl, .inl rfl⟩
      rw [streams]
      by_cases different : front.length + head.skipsLength + head.docsLength
          + head.countsLength + head.extentsLength ≠ (front ++ body).length
      · rw [if_pos different]
        exact .inr ⟨_, rfl, .inl rfl⟩
      rw [if_neg different]
      have same := not_not.mp different
      have covers : head.Covers body := by
        rw [List.length_append] at same
        unfold Head.Covers
        omega
      by_cases wide : maxSkips ≤ head.skipCount
      · rw [if_pos wide]
        exact .inr ⟨_, rfl, .inr (.table run covers wide)⟩
      rw [if_neg wide]
      have table := readSkips_covered covers
      unfold Step.evaluate
      cases ran : readSkips head head.skipCount #[] SkipEntry.origin
          (body.take head.skipsLength) with
      | error cause rest =>
          rcases table.of_error ran with corrupt | ⟨rfl, ahead, gap, rest, offset, stored, taken,
            reached, beyond⟩
          · exact .inr ⟨cause, rfl, .inl corrupt⟩
          · exact .inr ⟨_, rfl, .inr (.figure run covers stored taken reached beyond)⟩
      | ok skips rest =>
          obtain ⟨length, last, lined⟩ := table.of_ok ran
          exact .inl ⟨_, rfl, proper_cut proper run covers (by omega) length lined⟩

theorem proper_of_parse {bytes : List UInt8} {layout : Layout}
    (parsed : parse bytes = .ok layout) : layout.Proper bytes := by
  rcases parse_cases bytes with ⟨other, given, proper⟩ | ⟨_, refused, _⟩
  · cases parsed.symm.trans given
    exact proper
  · cases parsed.symm.trans refused

/-- Parsing any bytes gives a proper layout or refuses them as corrupt, unless an
unchecked sum leaves its word. -/
theorem parse_any (bytes : List UInt8) :
    match parse bytes with
    | .ok layout => layout.Proper bytes
    | .error cause => cause.kind = .corruptIndex ∨ Overflows bytes cause := by
  rcases parse_cases bytes with ⟨layout, parsed, proper⟩ | ⟨cause, refused, kind⟩
  · rw [parsed]
    exact proper
  · rw [refused]
    exact kind

/-- In a proper layout also the places of the skip entries in the block have addresses. -/
theorem Proper.places_lt {layout : Layout} {bytes : List UInt8} (proper : layout.Proper bytes)
    {entry : SkipEntry} (member : entry ∈ layout.skips) :
    layout.docsStart + entry.docsOffset < addressLimit ∧
      layout.countsStart + entry.countsOffset < addressLimit ∧
      layout.extentsStart + entry.extentsOffset < addressLimit := by
  obtain ⟨docs, counts, extents⟩ := proper.inside entry member
  have addressable := proper.addressable
  have last := proper.stop_eq
  simp only [stop, extentsStart, countsStart] at last ⊢
  omega

/-- A head that announces a table of as many entries as the memory can never hold. -/
def wideHead : List UInt8 :=
  [0x81, 0x80, 0x80, 0x80, 0x80, 0x80, 0x80, 0x80, 0x04,
   0x81, 0x80, 0x80, 0x80, 0x80, 0x80, 0x80, 0x80, 0x04,
   1, 1,
   0x80, 0x80, 0x80, 0x80, 0x80, 0x80, 0x80, 0x80, 0x04,
   0, 0, 0, 0]

/-- A block whose second skip entry lies the greatest gap behind an offset of one. -/
def runawayBlock : List UInt8 :=
  [3, 3, 1, 1, 2, 15, 1, 0, 0,
   1, 1, 0, 0,
   1, 0xff, 0xff, 0xff, 0xff, 0xff, 0xff, 0xff, 0xff, 0xff, 0x01,
   0]

/-- Either sum leaves its word on bytes that no check refuses before it. -/
theorem parse_overflows :
    parse wideHead = .error .skipTableOverflow ∧
      parse runawayBlock = .error .skipFigureOverflow ∧
      ¬ ∀ bytes cause, parse bytes = .error cause → cause.kind = .corruptIndex := by
  have wide : parse wideHead = .error .skipTableOverflow := by rfl
  have runaway : parse runawayBlock = .error .skipFigureOverflow := by rfl
  exact ⟨wide, runaway, fun refuses => nomatch refuses wideHead _ wide⟩

end Layout

end Block

end Concordance
