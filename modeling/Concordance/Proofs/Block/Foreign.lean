import Concordance.Block.Reader
import Concordance.Proofs.Block.Parsing
import Concordance.Proofs.Extent

/-!
# Reading a block of any bytes

A reader over a block that was parsed shows whole postings only, whoever wrote
the block: a count that is not zero and, if it reads them, as many extents in
order.  A move that ends well ends at or behind its target or leaves the block,
and a move that fails has found the block corrupt.
-/

namespace Concordance

namespace Block

/-! ## Groups -/

theorem Layout.Proper.groups_eq {layout : Layout} {bytes : List UInt8}
    (proper : layout.Proper bytes) :
    layout.groups = layout.skips.map (Group.ofEntry layout.docs layout.counts layout.extents) := by
  have ascending : (SkipEntry.origin :: layout.skips).Pairwise Group.Reaches := by
    refine List.pairwise_cons.mpr ⟨?_, proper.ascending.imp And.right⟩
    intro entry _
    exact ⟨Nat.zero_le _, Nat.zero_le _, Nat.zero_le _⟩
  exact Group.toList_collect layout.docs layout.counts layout.extents SkipEntry.origin #[]
    layout.skips ascending

/-- The group that is furthest is one of those given, and as many postings stand in
front of it as the groups before it hold. -/
theorem Group.furthest_mem (interval : Nat) (target : DocId) (found : Group) (before : Nat)
    (later : List Group) :
    (furthest interval target found before later).1 ∈ found :: later ∧
      before ≤ (furthest interval target found before later).2 ∧
      (furthest interval target found before later).2 ≤ before + later.length * interval := by
  induction later generalizing found before with
  | nil => exact ⟨List.mem_cons_self, Nat.le_refl _, Nat.le_add_right _ _⟩
  | cons group later induction =>
      rw [furthest]
      by_cases below : group.lastDoc < target
      · rw [if_pos below]
        obtain ⟨member, least, bound⟩ := induction group (before + interval)
        refine ⟨List.mem_cons_of_mem _ member, (Nat.le_add_right _ _).trans least, ?_⟩
        rw [List.length_cons, Nat.succ_mul]
        omega
      · rw [if_neg below]
        exact ⟨List.mem_cons_self, Nat.le_refl _, Nat.le_add_right _ _⟩

namespace Reader

/-- A reader over a parsed block that shows a whole posting or is done. -/
structure Coherent (reader : Reader) : Prop where
  proper : ∃ bytes, reader.layout.Proper bytes
  groups : reader.groups = reader.layout.groups
  ahead : reader.extentBytes.length ≤ reader.layout.extents.length
  decoded : reader.decoded ≤ reader.layout.summary.docs
  occurs : reader.isDone = false → 0 < reader.count
  shown : reader.isDone = false → reader.withExtents = true →
    reader.extents.length = reader.count ∧ Extent.WellOrdered reader.extents ∧
      reader.extents.length ≤ reader.layout.extents.length

/-- A reader over a parsed block, whatever it shows. -/
structure Founded (reader : Reader) : Prop where
  proper : ∃ bytes, reader.layout.Proper bytes
  groups : reader.groups = reader.layout.groups
  ahead : reader.extentBytes.length ≤ reader.layout.extents.length
  decoded : reader.decoded ≤ reader.layout.summary.docs

theorem Coherent.founded {reader : Reader} (coherent : reader.Coherent) : reader.Founded :=
  ⟨coherent.proper, coherent.groups, coherent.ahead, coherent.decoded⟩

/-- What stays of a reader as it is moved. -/
structure Stays (first second : Reader) : Prop where
  layout : second.layout = first.layout
  groups : second.groups = first.groups
  withExtents : second.withExtents = first.withExtents

theorem Stays.refl (reader : Reader) : Stays reader reader := ⟨rfl, rfl, rfl⟩

theorem Stays.trans {first second third : Reader} (here : Stays first second)
    (next : Stays second third) : Stays first third :=
  ⟨next.layout.trans here.layout, next.groups.trans here.groups,
    next.withExtents.trans here.withExtents⟩

/-! ## One posting -/

/-- Extents that were gathered so far and the bytes ahead of them. -/
structure Gathered (limit before : Nat) (gathering : Gathering) : Prop where
  ordered : Extent.WellOrdered gathering.found.toList
  below : ∀ extent ∈ gathering.found.toList, extent.start ≤ before
  room : gathering.found.size + gathering.bytes.length ≤ limit

theorem extentAt_eq_ok {before gap width : Nat} {extent : Extent}
    (placed : extentAt before gap width = .ok extent) :
    before ≤ extent.start ∧ extent.start ≤ extent.stop := by
  unfold extentAt at placed
  split at placed
  · split at placed
    · cases placed
      exact ⟨Nat.le_add_right _ _, Nat.le_add_right _ _⟩
    · cases placed
  · cases placed

theorem extentAt_error {before gap width : Nat} {cause : Error}
    (refused : extentAt before gap width = .error cause) : cause.kind = .corruptIndex := by
  unfold extentAt at refused
  split at refused
  · split at refused
    · cases refused
    · cases refused
      rfl
  · cases refused
    rfl

theorem Gathered.push {limit before : Nat} {gathering : Gathering} {rest : List UInt8}
    {extent : Extent} (gathered : Gathered limit before gathering)
    (shorter : rest.length < gathering.bytes.length) (behind : before ≤ extent.start)
    (forward : extent.start ≤ extent.stop) :
    Gathered limit extent.start ⟨rest, gathering.found.push extent⟩ where
  ordered := by
    have reversed : gathering.found.toList.reverse.reverse = gathering.found.toList :=
      List.reverse_reverse _
    have grown := @Extent.WellOrdered.concat gathering.found.toList.reverse extent
      (reversed.symm ▸ gathered.ordered) forward (by
        intro last latest
        have member := List.mem_reverse.mp (List.mem_of_head? latest)
        exact (gathered.below last member).trans behind)
    rwa [List.reverse_cons, reversed, ← Array.toList_push] at grown
  below := by
    intro other member
    rw [Array.toList_push] at member
    rcases List.mem_append.mp member with earlier | last
    · exact (gathered.below other earlier).trans behind
    · rw [List.mem_singleton.mp last]
  room := by
    have room := gathered.room
    rw [Array.size_push]
    dsimp only
    omega

theorem gather_ends {limit missing before : Nat} (doc : DocId) (declared : Nat)
    {gathering : Gathering} (gathered : Gathered limit before gathering) :
    (gather doc declared missing before).Ends gathering
      (fun _ after => after.found.size = gathering.found.size + missing ∧
        ∃ last, Gathered limit last after)
      (fun cause => cause.kind = .corruptIndex) := by
  induction missing generalizing before gathering with
  | zero => exact Step.ends_done rfl ⟨rfl, before, gathered⟩
  | succ missing induction =>
      unfold gather
      apply Step.Ends.behind (Step.get_run gathering)
      by_cases empty : gathering.bytes.isEmpty = true
      · rw [if_pos empty]
        exact Step.ends_failed rfl rfl
      · rw [if_neg empty]
        apply (Step.ends_onPart (Varint.read32_ends gathering.bytes)).bind
        rintro gap _ ⟨ahead, ⟨_, shorterGap, _⟩, rfl⟩
        apply (Step.ends_onPart (Varint.read32_ends ahead)).bind
        rintro width _ ⟨rest, ⟨_, shorterWidth, _⟩, rfl⟩
        cases placed : extentAt before gap width with
        | error cause => exact extentAt_error placed
        | ok extent =>
            obtain ⟨behind, forward⟩ := extentAt_eq_ok placed
            have pushed := gathered.push (shorterWidth.trans shorterGap) behind forward
            refine (induction pushed).imp ?_ (fun _ => id)
            rintro _ after ⟨size, last⟩
            rw [Array.size_push] at size
            exact ⟨by omega, last⟩

/-- A member of a list of gaps lies above the one before it. -/
theorem member_ends (base : Option DocId) (gap : Nat) (ahead : List UInt8) :
    (Step.ofExcept (GapList.member base gap)).Ends ahead
      (fun doc _ => ∀ last, base = some last → last < doc)
      (fun cause => cause.kind = .corruptIndex) := by
  unfold GapList.member
  cases base with
  | none =>
      dsimp only
      cases DocId.ofNat? gap with
      | none => exact Step.ends_failed rfl rfl
      | some doc => exact Step.ends_done rfl fun _ impossible => nomatch impossible
  | some last =>
      dsimp only
      by_cases zero : gap = 0
      · rw [if_pos zero]
        exact Step.ends_failed rfl rfl
      · rw [if_neg zero]
        cases known : DocId.ofNat? (last.val + gap) with
        | none => exact Step.ends_failed rfl rfl
        | some doc =>
            refine Step.ends_done rfl ?_
            intro other same
            cases same
            rw [DocId.lt_iff, DocId.ofNat?_eq_some.mp known]
            omega

theorem readNext_ends (base : Option DocId) (ahead : List UInt8) :
    (GapList.readNext base).Ends ahead (fun doc _ => ∀ last, base = some last → last < doc)
      (fun cause => cause.kind = .corruptIndex) := by
  unfold GapList.readNext
  apply (Varint.read64_ends ahead).bind
  exact fun gap rest _ => member_ends base gap rest

variable {reader : Reader}

theorem readExtents_ends (doc : DocId) (count : Nat) {limit : Nat}
    (ahead : reader.extentBytes.length ≤ limit) :
    (readExtents doc count).Ends reader
      (fun _ after => ∃ gathering : Gathering,
        (gathering.found.size = count ∧ ∃ last, Gathered limit last gathering) ∧
          after = { reader with
            extentBytes := gathering.bytes, extents := gathering.found.toList })
      (fun cause => cause.kind = .corruptIndex) := by
  have begun : Gathered limit 0 ⟨reader.extentBytes, #[]⟩ :=
    ⟨⟨by simp, .nil⟩, by simp, by simpa using ahead⟩
  have run := (gather_ends doc count begun).imp
    (fun _ after gathered => (⟨gathered.1.trans (Nat.zero_add count), gathered.2⟩ :
      after.found.size = count ∧ ∃ last, Gathered limit last after)) (fun _ => id)
  unfold readExtents
  exact Step.ends_onPart run

/-- How an advance of a reader ends if it ends well. -/
inductive Advanced (reader : Reader) : Reader → Prop where
  /-- All postings have been decoded and their streams are used up. -/
  | ended (last : reader.decoded = reader.layout.summary.docs)
      (clean : reader.hasTrailingBytes = false) : Advanced reader reader.exhaust
  /-- One more posting has been decoded, from which the next gap counts. -/
  | posting {after : Reader} {doc : DocId} (shown : after.current = some doc)
      (base : after.base = some doc) (decoded : after.decoded = reader.decoded + 1)
      (above : ∀ last, reader.base = some last → last < doc) (small : after.count < 4294967296) :
      Advanced reader after

theorem Advanced.further {after : Reader} (advanced : Advanced reader after) :
    after.isDone = true ∨ reader.decoded < after.decoded := by
  cases advanced with
  | ended => exact .inl rfl
  | posting _ _ decoded => exact .inr (decoded ▸ Nat.lt_succ_self _)

/-- The next posting is a whole one, or there is none left. -/
theorem advance_ends (founded : reader.Founded) :
    advance.Ends reader
      (fun _ after => after.Coherent ∧ Stays reader after ∧ Advanced reader after)
      (fun cause => cause.kind = .corruptIndex) := by
  unfold advance
  apply Step.Ends.behind (Step.get_run reader)
  by_cases last : reader.decoded = reader.layout.summary.docs
  · rw [if_pos last]
    by_cases trailing : reader.hasTrailingBytes = true
    · rw [if_pos trailing]
      exact Step.ends_failed rfl rfl
    · rw [if_neg trailing]
      refine Step.ends_done rfl ⟨?_, ⟨rfl, rfl, rfl⟩, .ended last (Bool.not_eq_true _ ▸ trailing)⟩
      exact ⟨founded.proper, founded.groups, founded.ahead, founded.decoded,
        fun running => (nomatch running), fun running => (nomatch running)⟩
  · rw [if_neg last]
    have more := Nat.lt_of_le_of_ne founded.decoded last
    apply (Step.ends_onPart (readNext_ends reader.base reader.docBytes)).bind
    rintro doc _ ⟨docBytes, above, rfl⟩
    apply Step.Ends.behind (Step.modify_run _ _)
    apply (Step.ends_onPart (Varint.read32_ends reader.countBytes)).bind
    rintro count _ ⟨countBytes, ⟨_, _, small⟩, rfl⟩
    by_cases zero : count = 0
    · rw [if_pos zero]
      exact Step.ends_failed rfl rfl
    · rw [if_neg zero]
      by_cases reads : reader.withExtents = true
      · rw [if_pos reads]
        refine Step.Ends.bind (readExtents_ends doc count founded.ahead) ?_
        rintro _ _ ⟨after, ⟨size, before, gathered⟩, rfl⟩
        have length : after.found.toList.length = count := by simpa using size
        have room := gathered.room
        refine Step.ends_done rfl ⟨?_, ⟨rfl, rfl, rfl⟩, .posting rfl rfl rfl above small⟩
        refine ⟨founded.proper, founded.groups, ?_, more, fun _ => Nat.pos_of_ne_zero zero,
          fun _ _ => ⟨length, gathered.ordered, ?_⟩⟩
        · dsimp only
          omega
        · dsimp only
          rw [Array.length_toList]
          omega
      · rw [if_neg reads]
        refine Step.ends_done rfl ⟨?_, ⟨rfl, rfl, rfl⟩, .posting rfl rfl rfl above small⟩
        exact ⟨founded.proper, founded.groups, founded.ahead, more,
          fun _ => Nat.pos_of_ne_zero zero, fun _ shows => absurd shows reads⟩

/-! ## Moving -/

theorem reached_of_done {target : DocId} (done : reader.current = none) :
    ∀ doc, reader.current = some doc → target ≤ doc := by
  intro doc shown
  cases done.symm.trans shown

theorem reached_of_not_lt {target place : DocId} (here : reader.current = some place)
    (below : ¬place < target) : ∀ doc, reader.current = some doc → target ≤ doc := by
  intro doc shown
  cases here.symm.trans shown
  exact DocId.not_lt.mp below

theorem advanceTo_ends {target : DocId} {limit : Nat} (coherent : reader.Coherent)
    (enough : reader.isDone = true ∨ reader.layout.summary.docs - reader.decoded < limit) :
    (advanceTo target limit).Ends reader
      (fun _ after => after.Coherent ∧ Stays reader after ∧
        ∀ doc, after.current = some doc → target ≤ doc)
      (fun cause => cause.kind = .corruptIndex) := by
  induction limit generalizing reader with
  | zero =>
      rcases enough with done | impossible
      · exact Step.ends_done rfl
          ⟨coherent, Stays.refl reader, reached_of_done (Option.isNone_iff_eq_none.mp done)⟩
      · exact absurd impossible (Nat.not_lt_zero _)
  | succ limit induction =>
      unfold advanceTo
      apply Step.Ends.behind (Step.get_run reader)
      cases shown : reader.current with
      | none =>
          exact Step.ends_done rfl ⟨coherent, Stays.refl reader, reached_of_done shown⟩
      | some doc =>
          dsimp only
          by_cases below : doc < target
          · rw [if_pos below]
            have left : reader.layout.summary.docs - reader.decoded < limit + 1 := by
              rcases enough with done | left
              · rw [isDone, shown] at done
                cases done
              · exact left
            apply (advance_ends coherent.founded).bind
            rintro _ middle ⟨coherentMiddle, stays, advanced⟩
            have enoughMiddle : middle.isDone = true ∨
                middle.layout.summary.docs - middle.decoded < limit := by
              rcases advanced.further with done | more
              · exact .inl done
              · have bound := coherentMiddle.decoded
                rw [stays.layout] at bound ⊢
                exact .inr (by omega)
            refine (induction coherentMiddle enoughMiddle).imp ?_ (fun _ => id)
            rintro _ after ⟨coherentAfter, staysAfter, reached⟩
            exact ⟨coherentAfter, stays.trans staysAfter, reached⟩
          · rw [if_neg below]
            exact Step.ends_done rfl ⟨coherent, Stays.refl reader, reached_of_not_lt shown below⟩

/-- The group to be entered is one of the block.  All postings that were decoded stand in front
of it, and no more than the block has. -/
theorem groupFor_mem (founded : reader.Founded) {target : DocId} {group : Group} {before : Nat}
    (chosen : reader.groupFor target = some (group, before)) :
    group ∈ reader.groups ∧ reader.decoded ≤ before ∧
      before ≤ reader.layout.summary.docs := by
  obtain ⟨bytes, proper⟩ := founded.proper
  have size : reader.groups.length =
      skipsFor reader.layout.summary.docs reader.layout.skipInterval := by
    rw [founded.groups, proper.groups_eq, List.length_map, proper.skips_length]
  unfold groupFor at chosen
  dsimp only at chosen
  cases ahead : reader.groups.drop ((reader.decoded - 1) / reader.layout.skipInterval) with
  | nil =>
      rw [ahead] at chosen
      cases chosen
  | cons first later =>
      rw [ahead] at chosen
      dsimp only at chosen
      by_cases below : first.lastDoc < target
      · rw [if_pos below] at chosen
        obtain ⟨member, least, bound⟩ := Group.furthest_mem reader.layout.skipInterval target first
          (((reader.decoded - 1) / reader.layout.skipInterval + 1) * reader.layout.skipInterval)
          later
        rw [Option.some.inj chosen] at member least bound
        refine ⟨List.mem_of_mem_drop (ahead ▸ member), le_trans ?_ least, bound.trans ?_⟩
        · have passed := Nat.lt_mul_div_succ (reader.decoded - 1) proper.positive
          rw [Nat.mul_comm] at passed
          omega
        have length := congrArg List.length ahead
        rw [List.length_drop, size, List.length_cons] at length
        have groups : (reader.decoded - 1) / reader.layout.skipInterval + 1 + later.length =
            skipsFor reader.layout.summary.docs reader.layout.skipInterval := by omega
        rw [← Nat.add_mul, groups]
        exact (Nat.div_mul_le_self _ _).trans (Nat.sub_le _ _)
      · rw [if_neg below] at chosen
        cases chosen

theorem Founded.enterGroup (founded : reader.Founded) {target : DocId} {group : Group}
    {before : Nat} (chosen : reader.groupFor target = some (group, before)) :
    (reader.enterGroup group before).Founded := by
  obtain ⟨member, _, bound⟩ := groupFor_mem founded chosen
  obtain ⟨bytes, proper⟩ := founded.proper
  rw [founded.groups, proper.groups_eq] at member
  obtain ⟨entry, _, rfl⟩ := List.mem_map.mp member
  refine ⟨⟨bytes, proper⟩, founded.groups, ?_, bound⟩
  exact (List.length_drop ..).trans_le (Nat.sub_le _ _)

/-- A move ends at or behind its target or behind the last posting. -/
theorem skipTo_ends (coherent : reader.Coherent) (target : DocId) :
    (skipTo target).Ends reader
      (fun _ after => after.Coherent ∧ Stays reader after ∧
        ∀ doc, after.current = some doc → target ≤ doc)
      (fun cause => cause.kind = .corruptIndex) := by
  have through {middle : Reader} (coherentMiddle : middle.Coherent) (stays : Stays reader middle) :
      (advanceTo target (reader.layout.summary.docs + 1)).Ends middle
        (fun _ after => after.Coherent ∧ Stays reader after ∧
          ∀ doc, after.current = some doc → target ≤ doc)
        (fun cause => cause.kind = .corruptIndex) := by
    have enough : middle.layout.summary.docs - middle.decoded < reader.layout.summary.docs + 1 := by
      rw [stays.layout]
      omega
    refine (advanceTo_ends coherentMiddle (.inr enough)).imp ?_ (fun _ => id)
    rintro _ after ⟨coherentAfter, staysAfter, reached⟩
    exact ⟨coherentAfter, stays.trans staysAfter, reached⟩
  unfold skipTo
  apply Step.Ends.behind (Step.get_run reader)
  cases shown : reader.current with
  | none =>
      exact Step.ends_done rfl ⟨coherent, Stays.refl reader, reached_of_done shown⟩
  | some doc =>
      dsimp only
      by_cases below : doc < target
      · rw [if_pos below]
        cases chosen : reader.groupFor target with
        | none => exact through coherent (Stays.refl reader)
        | some entry =>
            obtain ⟨group, before⟩ := entry
            apply Step.Ends.behind (Step.set_run _ _)
            apply (advance_ends (coherent.founded.enterGroup chosen)).bind
            rintro _ middle ⟨coherentMiddle, stays, _⟩
            exact through coherentMiddle ⟨stays.layout, stays.groups, stays.withExtents⟩
      · rw [if_neg below]
        exact Step.ends_done rfl ⟨coherent, Stays.refl reader, reached_of_not_lt shown below⟩

theorem coherent_atStart {layout : Layout} {bytes : List UInt8} (proper : layout.Proper bytes)
    (withExtents : Bool) : (atStart layout withExtents).Coherent :=
  ⟨⟨bytes, proper⟩, rfl, Nat.le_refl _, Nat.zero_le _, fun running => (nomatch running),
    fun running => (nomatch running)⟩

/-- A block that is opened is read from its first posting on; one that is not is
corrupt, or its head runs over. -/
theorem open?_cases (bytes : List UInt8) (withExtents : Bool) :
    (∃ reader, open? bytes withExtents = .ok reader ∧ reader.Coherent ∧
      Layout.parse bytes = .ok reader.layout ∧ reader.withExtents = withExtents) ∨
    ∃ cause, open? bytes withExtents = .error cause ∧
      (cause.kind = .corruptIndex ∨ Layout.Overflows bytes cause) := by
  unfold open?
  rcases Layout.parse_cases bytes with ⟨layout, parsed, proper⟩ | ⟨cause, refused, kind⟩
  on_goal 2 => exact .inr ⟨cause, by rw [refused]; rfl, kind⟩
  rw [parsed, Step.ok_bind]
  have first := advance_ends (coherent_atStart proper withExtents).founded
  cases run : advance (atStart layout withExtents) with
  | ok value reader =>
      obtain ⟨coherentFirst, stays, _⟩ := first.of_ok run
      exact .inl ⟨reader, rfl, coherentFirst, congrArg Except.ok stays.layout.symm,
        stays.withExtents⟩
  | error cause after => exact .inr ⟨cause, rfl, .inl (first.of_error run)⟩

end Reader
end Block
end Concordance
