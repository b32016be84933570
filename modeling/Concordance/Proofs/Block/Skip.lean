import Concordance.Proofs.Block.Reader

/-!
# Skipping groups

A skip entry of an image leads to the place behind a whole number of postings,
where the streams go on as if all of them had been decoded.  Entering the
furthest group in front of a target therefore changes nothing but the number of
postings that are decoded on the way.
-/

namespace Concordance

namespace Block

/-- The group behind the first so many full groups of some postings. -/
def groupAt (interval : Nat) (postings : List Posting) (group : Nat) : Group :=
  Group.ofEntry (docBytes postings) (countBytes postings) (extentBytes postings)
    (placeAt postings ((group + 1) * interval))

theorem groups_of (interval : Nat) (postings : List Posting) :
    (Layout.of interval postings).groups =
      (List.range (skipsFor postings.length interval)).map (groupAt interval postings) := by
  have collected := Group.toList_collect (docBytes postings) (countBytes postings)
    (extentBytes postings) SkipEntry.origin #[] (places interval postings)
    (places_reach interval postings)
  have start : (⟨DocId.zero, docBytes postings, countBytes postings, extentBytes postings⟩ :
      Group) = Group.ofEntry (docBytes postings) (countBytes postings) (extentBytes postings)
        SkipEntry.origin := rfl
  unfold Layout.groups
  simp only [Layout.of]
  rw [start, collected, places, List.map_map]
  rfl

/-- The streams from a group on are those of the postings behind it. -/
theorem groupAt_streams {interval : Nat} {front back : List Posting} {group : Nat}
    (place : (group + 1) * interval = front.length) (occupied : front ≠ []) :
    lastDoc? front = some (groupAt interval (front ++ back) group).lastDoc ∧
      (groupAt interval (front ++ back) group).docs =
        GapList.bytesFrom (lastDoc? front) (docsOf back) ∧
      (groupAt interval (front ++ back) group).counts = countBytes back ∧
      (groupAt interval (front ++ back) group).extents = extentBytes back := by
  have cut : placeAt (front ++ back) ((group + 1) * interval) =
      ⟨(lastDoc? front).getD DocId.zero, (docBytes front).length, (countBytes front).length,
        (extentBytes front).length⟩ := by
    rw [place, placeAt_append back (Nat.le_refl _)]
    simp only [placeAt, List.take_length]
  simp only [groupAt, Group.ofEntry, cut]
  refine ⟨?_, ?_, ?_, ?_⟩
  · cases ends : lastDoc? front with
    | none => exact absurd (by simpa [lastDoc?, docsOf] using ends) occupied
    | some last => rfl
  · rw [docBytes_append, List.drop_left]
  · rw [countBytes_append, List.drop_left]
  · rw [extentBytes_append, List.drop_left]

/-- The search for the furthest group goes on from one group to a later one, all
of whose predecessors end below the target. -/
theorem furthest_groupAt {interval : Nat} {postings : List Posting} {target : DocId}
    {group : Nat} (count : Nat)
    (below : (groupAt interval postings group).lastDoc < target) :
    ∃ later, group ≤ later ∧ later ≤ group + count ∧
      (groupAt interval postings later).lastDoc < target ∧
      Group.furthest interval target (groupAt interval postings group) ((group + 1) * interval)
          ((List.range' (group + 1) count).map (groupAt interval postings)) =
        (groupAt interval postings later, (later + 1) * interval) := by
  induction count generalizing group with
  | zero => exact ⟨group, Nat.le_refl _, Nat.le_refl _, below, rfl⟩
  | succ count induction =>
      rw [List.range'_succ, List.map_cons]
      by_cases next : (groupAt interval postings (group + 1)).lastDoc < target
      · obtain ⟨later, above, bound, found, same⟩ := induction next
        refine ⟨later, by omega, by omega, found, ?_⟩
        have number : (group + 1) * interval + interval = (group + 1 + 1) * interval :=
          (Nat.succ_mul _ _).symm
        rw [Group.furthest, if_pos next, number]
        exact same
      · refine ⟨group, Nat.le_refl _, Nat.le_add_right _ _, below, ?_⟩
        rw [Group.furthest, if_neg next]

namespace Reader

variable {interval : Nat} {withExtents : Bool} {reader : Reader}

theorem groupFor_cases {front back : List Posting}
    (between : Between interval withExtents front back reader) (target : DocId) :
    reader.groupFor target = none ∨
      ∃ group, group < skipsFor (front ++ back).length interval ∧
        (groupAt interval (front ++ back) group).lastDoc < target ∧
        reader.groupFor target =
          some (groupAt interval (front ++ back) group, (group + 1) * interval) := by
  have groups : reader.groups = (List.range (skipsFor (front ++ back).length interval)).map
      (groupAt interval (front ++ back)) := by
    rw [between.groups, between.layout, groups_of]
  have span : reader.layout.skipInterval = interval := by
    rw [between.layout]
    rfl
  unfold groupFor
  simp only [groups, span, between.decoded, ← List.map_drop, List.range_eq_range',
    List.drop_range', Nat.zero_add, Nat.mul_one]
  cases left : skipsFor (front ++ back).length interval - (front.length - 1) / interval with
  | zero => exact .inl rfl
  | succ count =>
      rw [List.range'_succ, List.map_cons]
      dsimp only
      by_cases below :
          (groupAt interval (front ++ back) ((front.length - 1) / interval)).lastDoc < target
      · obtain ⟨later, above, bound, found, same⟩ := furthest_groupAt count below
        rw [if_pos below, same]
        exact .inr ⟨later, by omega, found, rfl⟩
      · rw [if_neg below]
        exact .inl rfl

theorem between_enterGroup {front back earlier later : List Posting} {group : Nat}
    (between : Between interval withExtents front back reader)
    (same : earlier ++ later = front ++ back)
    (place : (group + 1) * interval = earlier.length) (occupied : earlier ≠ []) :
    Between interval withExtents earlier later
      (reader.enterGroup (groupAt interval (front ++ back) group) ((group + 1) * interval)) := by
  rw [← same]
  obtain ⟨base, docs, counts, extents⟩ := @groupAt_streams _ _ later _ place occupied
  constructor
  · rw [same]
    exact between.layout
  · exact between.groups
  · exact between.mode
  · exact docs
  · exact counts
  · intro _
    exact extents
  · exact base.symm
  · exact place
  · exact between.unread

theorem below_groupAt {postings : List Posting} (positive : 0 < interval)
    (ascending : Ascending postings) {group : Nat}
    (inside : group < skipsFor postings.length interval) :
    ∀ posting ∈ postings.take ((group + 1) * interval),
      posting.doc ≤ (groupAt interval postings group).lastDoc := by
  intro posting member
  have bound := mul_le_of_lt_skipsFor inside
  have occupied : 0 < (group + 1) * interval := Nat.mul_pos (Nat.succ_pos _) positive
  obtain ⟨number, place⟩ := Nat.exists_eq_succ_of_ne_zero (Nat.ne_of_gt occupied)
  have within : number < postings.length := by omega
  have last : (groupAt interval postings group).lastDoc = postings[number].doc := by
    show (placeAt postings ((group + 1) * interval)).lastDoc = _
    rw [place]
    exact placeAt_lastDoc (by omega)
  obtain ⟨index, indexBound, rfl⟩ := List.mem_iff_getElem.mp member
  rw [List.length_take] at indexBound
  rw [last, List.getElem_take]
  rcases Nat.lt_or_eq_of_le (show index ≤ number by omega) with less | same
  · exact Nat.le_of_lt (List.pairwise_iff_getElem.mp ascending _ _ _ _ less)
  · subst same
    exact Nat.le_refl _

theorem skipTo_enter {postings front back : List Posting} {target : DocId} {group : Nat}
    (stored : Stored interval postings)
    (between : Between interval withExtents front back reader)
    (split : front ++ back = postings)
    (inside : group < skipsFor postings.length interval)
    (ends : (groupAt interval postings group).lastDoc < target) :
    ∃ after, ((set (reader.enterGroup (groupAt interval postings group)
          ((group + 1) * interval)) : Step Reader Unit) >>= fun _ => advance >>= fun _ =>
            advanceTo target (postings.length + 1)) reader = .ok () after ∧
      Standing interval withExtents (postings.takeWhile (isBelow target)) after
        (postings.dropWhile (isBelow target)) := by
  let earlier := postings.take ((group + 1) * interval)
  let later := postings.drop ((group + 1) * interval)
  have bound := mul_le_of_lt_skipsFor inside
  have occupied : 0 < (group + 1) * interval :=
    Nat.mul_pos (Nat.succ_pos _) stored.storable.positive
  have whole : earlier ++ later = postings := List.take_append_drop _ _
  have place : (group + 1) * interval = earlier.length := by
    simp only [earlier, List.length_take]
    omega
  have passes : ∀ posting ∈ earlier, isBelow target posting = true := by
    intro posting member
    have atMost :=
      below_groupAt stored.storable.positive stored.encodable.ascending inside posting member
    exact isBelow_iff.mpr (Nat.lt_of_le_of_lt atMost ends)
  have entered := between_enterGroup between (whole.trans split.symm) place
    (List.ne_nil_of_length_pos (by omega))
  rw [split] at entered
  have fits : Stored interval (earlier ++ later) := whole ▸ stored
  obtain ⟨middle, advanced, standing⟩ := advance_between fits entered
  have enough : later.length ≤ postings.length + 1 := by
    simp only [later, List.length_drop]
    omega
  obtain ⟨after, run, final⟩ := advanceTo_standing fits standing enough
  refine ⟨after, ?_, ?_⟩
  · rw [Step.bind_ok _ (Step.set_run _ _), Step.bind_ok _ advanced]
    exact run
  · rw [← whole, List.takeWhile_append_of_pos passes, List.dropWhile_append_of_pos passes]
    exact final

theorem skipTo_reached {target : DocId}
    (reached : ∀ doc, reader.current = some doc → ¬doc < target) :
    skipTo target reader = .ok () reader := by
  unfold skipTo
  rw [Step.bind_ok _ (Step.get_run _)]
  cases known : reader.current with
  | none => rfl
  | some doc =>
      dsimp only
      rw [if_neg (reached doc known)]
      rfl

/-- Skipping to a target passes exactly the leading postings below it. -/
theorem skipTo_standing {passed ahead : List Posting} {target : DocId}
    (stored : Stored interval (passed ++ ahead))
    (standing : Standing interval withExtents passed reader ahead) :
    ∃ after, skipTo target reader = .ok () after ∧
      Standing interval withExtents (passed ++ ahead.takeWhile (isBelow target)) after
        (ahead.dropWhile (isBelow target)) := by
  have docs : reader.layout.summary.docs = (passed ++ ahead).length := by
    rw [standing.layout]
    rfl
  unfold skipTo
  rw [Step.bind_ok _ (Step.get_run _), standing.current]
  cases ahead with
  | nil => exact ⟨reader, rfl, by simpa using standing⟩
  | cons posting back =>
      dsimp only [List.head?_cons, Option.map_some]
      by_cases less : posting.doc < target
      · rw [if_pos less, docs]
        have between : Between interval withExtents (passed ++ [posting]) back reader := by
          cases standing with
          | shows between => exact between
        have regrouped : (passed ++ [posting]) ++ back = passed ++ posting :: back := by simp
        rcases groupFor_cases between target with none | ⟨group, inside, ends, chosen⟩
        · rw [none]
          apply advanceTo_standing stored standing
          simp only [List.length_append]
          omega
        · rw [regrouped] at chosen inside ends
          rw [chosen]
          obtain ⟨after, run, final⟩ := skipTo_enter stored between regrouped inside ends
          have passes : ∀ earlier ∈ passed, isBelow target earlier = true := by
            intro earlier member
            obtain ⟨_, _, across⟩ := List.pairwise_append.mp stored.encodable.ascending
            have before := across earlier member posting List.mem_cons_self
            exact isBelow_iff.mpr (Nat.lt_trans before less)
          rw [List.takeWhile_append_of_pos passes, List.dropWhile_append_of_pos passes] at final
          exact ⟨after, run, final⟩
      · rw [if_neg less]
        exact ⟨reader, rfl, by simpa [isBelow, less] using standing⟩

/-- Skipping to a target ends on the first posting at or behind it. -/
theorem skipTo_stored {postings : List Posting} {floor : Nat} {target : DocId}
    (stored : Stored interval postings)
    (first : AtFirst interval withExtents postings floor reader) (above : floor ≤ target.val) :
    ∃ after, skipTo target reader = .ok () after ∧
      AtFirst interval withExtents postings target.val after := by
  cases first with
  | done layout mode finished below =>
      refine ⟨reader, ?_, .done layout mode finished ?_⟩
      · apply skipTo_reached
        rw [finished]
        exact fun _ impossible => nomatch impossible
      · intro posting member
        exact Nat.lt_of_lt_of_le (below posting member) above
  | stands front posting back split between shown behind below =>
      subst split
      obtain ⟨after, run, standing⟩ :=
        @skipTo_standing _ _ _ _ _ target stored (.shows between shown)
      refine ⟨after, run, ?_⟩
      have first := @Standing.atFirst _ _ _ _ _ target.val standing
      rw [List.append_assoc, List.takeWhile_append_dropWhile] at first
      apply first
      · intro reached ahead
        have stops := List.head?_dropWhile_not (isBelow target) (posting :: back)
        rw [ahead] at stops
        exact DocId.not_lt.mp (by simpa [isBelow] using stops)
      · intro earlier member
        rcases List.mem_append.mp member with inFront | inAhead
        · exact Nat.lt_of_lt_of_le (below earlier inFront) above
        · exact isBelow_iff.mp (List.mem_takeWhile_imp inAhead)

end Reader

end Block

end Concordance
