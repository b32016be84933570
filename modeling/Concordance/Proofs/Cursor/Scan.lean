import Concordance.Cursor.Scan
import Concordance.Proofs.Cursor.Motion

/-!
# What scans collect

A fresh cursor that is moved past each of its documents visits all matches of
what it tracks, in ascending order.  A scan with a sample visits those of them
that are in the sample.
-/

namespace Concordance

/-- A match with its count. -/
def Match.counted (found : Match) : DocId × Nat := (found.doc, found.count)

/-- All matches at or behind a position, each the first one behind the last. -/
inductive Listed (found : DocId → Option Match) : Nat → List Match → Prop where
  | done {floor : Nat} (first : First found floor none) : Listed found floor []
  | next {floor : Nat} {current : Match} {later : List Match}
      (first : First found floor (some current)) (rest : Listed found (current.doc.val + 1) later) :
      Listed found floor (current :: later)

namespace Listed

variable {found : DocId → Option Match} {floor : Nat} {matched : List Match}

theorem unique {other : List Match} (listed : Listed found floor matched)
    (rival : Listed found floor other) : matched = other := by
  induction listed generalizing other with
  | done first =>
      cases rival with
      | done => rfl
      | next second => cases first.unique second
  | next first rest induction =>
      cases rival with
      | done second => cases first.unique second
      | next second later =>
          cases first.unique second
          rw [induction later]

/-- Exactly the documents at or behind the position that match are listed. -/
theorem mem_iff (listed : Listed found floor matched) (item : Match) :
    item ∈ matched ↔ floor ≤ item.doc.val ∧ found item.doc = some item := by
  induction listed with
  | done first =>
      cases first with
      | nowhere absent =>
          refine ⟨fun impossible => (nomatch impossible), fun ⟨behind, here⟩ => ?_⟩
          rw [absent item.doc behind] at here
          cases here
  | next first rest induction =>
      rename_i current later
      obtain ⟨behind, here, before⟩ := first.some_parts
      rw [List.mem_cons, induction]
      constructor
      · rintro (rfl | ⟨reached, known⟩)
        · exact ⟨behind, here⟩
        · exact ⟨by omega, known⟩
      · rintro ⟨reached, known⟩
        by_cases less : item.doc < current.doc
        · rw [before item.doc reached less] at known
          cases known
        · by_cases same : item.doc = current.doc
          · rw [same, here] at known
            exact .inl (Option.some.inj known).symm
          · have above := DocId.not_lt.mp less
            have different : current.doc.val ≠ item.doc.val := fun equal =>
              same (DocId.eq_of_val_eq equal.symm)
            rw [DocId.le_iff] at above
            exact .inr ⟨by omega, known⟩

theorem ascending (listed : Listed found floor matched) :
    matched.Pairwise fun first second => first.doc < second.doc := by
  induction listed with
  | done => exact .nil
  | next _ rest induction =>
      refine List.pairwise_cons.mpr ⟨fun item member => ?_, induction⟩
      exact ((rest.mem_iff item).mp member).1

theorem of_mem_iff (ascending : matched.Pairwise fun first second => first.doc < second.doc)
    (exact : ∀ item, item ∈ matched ↔ floor ≤ item.doc.val ∧ found item.doc = some item)
    (place : ∀ doc item, found doc = some item → item.doc = doc) :
    Listed found floor matched := by
  induction matched generalizing floor with
  | nil =>
      refine .done (.nowhere fun doc behind => ?_)
      cases here : found doc with
      | none => rfl
      | some item =>
          have same := place doc item here
          exact nomatch (exact item).mpr ⟨by rwa [same], by rw [same]; exact here⟩
  | cons current later induction =>
      obtain ⟨above, rest⟩ := List.pairwise_cons.mp ascending
      obtain ⟨behind, here⟩ := (exact current).mp List.mem_cons_self
      refine .next (.somewhere current behind here fun doc reached less => ?_)
        (induction rest fun item => ⟨fun member => ?_, fun ⟨reached, known⟩ => ?_⟩)
      · cases known : found doc with
        | none => rfl
        | some item =>
            have same := place doc item known
            have member := (exact item).mpr ⟨by rwa [same], by rw [same]; exact known⟩
            rw [← same] at less
            rcases List.mem_cons.mp member with rfl | member
            · exact absurd less (Nat.lt_irrefl _)
            · exact absurd (above item member) (Nat.lt_asymm less)
      · exact ⟨above item member, ((exact item).mp (List.mem_cons_of_mem _ member)).2⟩
      · have member := (exact item).mpr ⟨by omega, known⟩
        rcases List.mem_cons.mp member with rfl | member
        · omega
        · exact member

/-- The postings of a key are the matches of its source. -/
theorem source {interval : Nat} {postings : List Posting}
    (stored : Block.Stored interval postings) (withExtents : Bool) :
    Listed (Meaning.source postings withExtents).found 0
      (postings.map (Posting.match withExtents)) := by
  have ascending := stored.encodable.ascending
  have sound := Meaning.source_sound stored.encodable.wellFormed withExtents
  refine of_mem_iff (List.pairwise_map.mpr ascending) (fun item => ?_) sound.place
  rw [List.mem_map]
  constructor
  · rintro ⟨posting, member, rfl⟩
    obtain ⟨front, back, split⟩ := List.append_of_mem member
    subst split
    exact ⟨Nat.zero_le _, Meaning.source_eq_match ascending⟩
  · rintro ⟨_, known⟩
    obtain ⟨posting, found, same⟩ := Option.map_eq_some_iff.mp known
    exact ⟨posting, List.mem_of_find?_eq_some found, same⟩

end Listed

/-- What a query finds in the documents of a sample. -/
def sampled (found : DocId → Option Match) (sample : List DocId) : List Match :=
  sample.filterMap found

/-- An ascending sample picks those matches whose document is in it. -/
theorem Listed.sampled_eq {found : DocId → Option Match} {matched : List Match}
    (listed : Listed found 0 matched) (place : ∀ doc item, found doc = some item → item.doc = doc)
    {sample : List DocId} (ascending : sample.Pairwise fun first second => first < second) :
    sampled found sample = matched.filter fun item => sample.contains item.doc := by
  have sorted : (sampled found sample).Pairwise fun first second => first.doc < second.doc := by
    refine List.pairwise_filterMap.mpr (ascending.imp ?_)
    intro first second less one oneFound other otherFound
    rw [place first one oneFound, place second other otherFound]
    exact less
  have kept : (matched.filter fun item => sample.contains item.doc).Pairwise
      fun first second => first.doc < second.doc := listed.ascending.filter _
  have distinct : ∀ {items : List Match},
      (items.Pairwise fun first second => first.doc < second.doc) → items.Nodup := by
    intro items strict
    refine List.Pairwise.imp ?_ strict
    intro first second less same
    subst same
    exact Nat.lt_irrefl _ less
  refine List.Perm.eq_of_pairwise (fun one other _ _ less greater => ?_) sorted kept
    ((List.perm_ext_iff_of_nodup (distinct sorted) (distinct kept)).mpr fun item => ?_)
  · exact absurd less (Nat.lt_asymm greater)
  · rw [sampled, List.mem_filterMap, List.mem_filter, listed.mem_iff]
    constructor
    · rintro ⟨doc, member, known⟩
      have same := place doc item known
      subst same
      exact ⟨⟨Nat.zero_le _, known⟩, by simpa using member⟩
    · rintro ⟨⟨_, known⟩, member⟩
      exact ⟨item.doc, by simpa using member, known⟩

namespace Forest

variable {forest : Forest} {meaning : Meaning} {start floor : Nat} {handle : Handle}
  {stands : Nat → Forest → Prop}

/-- A cursor stands on its next match or is done; from a match it goes on. -/
theorem Follows.next (follows : Follows meaning start handle stands)
    (standing : stands floor forest) :
    (First meaning.found floor none ∧ forest.position handle = none) ∨
      ∃ current after, First meaning.found floor (some current) ∧
        Shows meaning.capabilities (some current) handle forest ∧
        Forest.movePast handle current.doc forest = .ok () after ∧
        stands (current.doc.val + 1) after := by
  obtain ⟨current, first, shows⟩ := follows.shows standing
  cases current with
  | none => exact .inl ⟨first, shows.position⟩
  | some current =>
      have behind := first.floor_le rfl
      obtain ⟨after, moved, later, _⟩ := follows.movePast standing (Nat.le_succ_of_le behind)
      exact .inr ⟨current, after, first, shows, moved, later⟩

/-! ## Full scans -/

/-- A match as a cursor shows it. -/
def Shown.of (offered : Capabilities) (found : Match) : Shown :=
  { doc := found.doc
    count := if offered.count then some found.count else none
    extents := if offered.extents then some found.extents else none }

theorem show?_shows {offered : Capabilities} {current : Match}
    (shows : Shows offered (some current) handle forest) :
    forest.show? handle current.doc = .ok (Shown.of offered current) := by
  have count := shows.count current rfl
  have extents := shows.extents current rfl
  unfold show? Shown.of
  rw [shows.capabilities]
  cases counts : offered.count <;> cases lists : offered.extents <;>
    simp_all <;> rfl

/-- Draining a cursor shows all its matches. -/
theorem Follows.drainFrom_lists (follows : Follows meaning start handle stands)
    (standing : stands floor forest) (found : Array Shown) :
    ∃ matched after, Listed meaning.found floor matched ∧
      drainFrom handle none floor found forest =
        .ok (found ++ (matched.map (Shown.of meaning.capabilities)).toArray) after := by
  -- Each match lies behind the floor, and the next floor behind the match.
  generalize measure : 18446744073709551616 - floor = left
  induction left using Nat.strongRecOn generalizing forest floor found with
  | ind left induction =>
      rw [drainFrom]
      simp only [Option.any_none, Bool.false_eq_true, if_false]
      rw [Step.bind_ok _ (Step.get_run _)]
      rcases follows.next standing with
        ⟨first, finished⟩ | ⟨current, after, first, shows, moved, later⟩
      · rw [finished]
        exact ⟨[], forest, .done first, by simp⟩
      · have position : forest.position handle = some current.doc := shows.position
        have behind := first.floor_le rfl
        have bound := current.doc.val_lt
        obtain ⟨matched, final, listed, run⟩ := induction
          (18446744073709551616 - (current.doc.val + 1)) (by omega) later
          (found.push (Shown.of meaning.capabilities current)) rfl
        refine ⟨current :: matched, final, .next first listed, ?_⟩
        rw [position]
        simp only [if_pos behind]
        rw [Step.bind_ok _ (Step.ofExcept_run (show?_shows shows) _), Step.bind_ok _ moved, run]
        simp

theorem drain_lists (tracks : Tracks forest meaning start handle 0) :
    ∃ matched after, Listed meaning.found 0 matched ∧
      drain handle none forest = .ok (matched.map (Shown.of meaning.capabilities)) after := by
  obtain ⟨matched, after, listed, run⟩ := tracks_follows.drainFrom_lists tracks #[]
  refine ⟨matched, after, listed, ?_⟩
  unfold drain
  rw [Step.bind_ok _ run]
  simp

theorem Follows.scanFrom_lists (follows : Follows meaning start handle stands)
    (standing : stands floor forest) (counts : meaning.capabilities.count = true)
    (found : Array (DocId × Nat)) :
    ∃ matched after, Listed meaning.found floor matched ∧
      scanFrom handle floor found forest =
        .ok (found ++ (matched.map Match.counted).toArray) after := by
  generalize measure : 18446744073709551616 - floor = left
  induction left using Nat.strongRecOn generalizing forest floor found with
  | ind left induction =>
      rw [scanFrom, Step.bind_ok _ (Step.get_run _)]
      rcases follows.next standing with
        ⟨first, finished⟩ | ⟨current, after, first, shows, moved, later⟩
      · rw [finished]
        exact ⟨[], forest, .done first, by simp⟩
      · have position : forest.position handle = some current.doc := shows.position
        have behind := first.floor_le rfl
        have bound := current.doc.val_lt
        obtain ⟨matched, final, listed, run⟩ := induction
          (18446744073709551616 - (current.doc.val + 1)) (by omega) later
          (found.push (Match.counted current)) rfl
        refine ⟨current :: matched, final, .next first listed, ?_⟩
        rw [position]
        simp only [if_pos behind]
        rw [Step.bind_ok _ (Step.ofExcept_run (shows.count current rfl counts) _),
          Step.bind_ok _ moved]
        apply run.trans
        simp

/-- Scanning a cursor lists all its matches. -/
theorem Follows.scan_lists (follows : Follows meaning start handle stands)
    (standing : stands 0 forest) (counts : meaning.capabilities.count = true) :
    ∃ matched after, Listed meaning.found 0 matched ∧
      scan handle forest = .ok (matched.map Match.counted) after := by
  obtain ⟨matched, after, listed, run⟩ := follows.scanFrom_lists standing counts #[]
  refine ⟨matched, after, listed, ?_⟩
  unfold scan
  rw [Step.bind_ok _ run]
  simp

theorem isDone_of_listed (tracks : Tracks forest meaning start handle floor)
    {matched : List Match} (listed : Listed meaning.found floor matched) :
    forest.isDone handle = matched.isEmpty := by
  obtain ⟨current, first, shows⟩ := tracks.shows
  rw [isDone, shows.position]
  cases listed with
  | done second =>
      rw [first.unique second]
      rfl
  | next second =>
      rw [first.unique second]
      rfl

/-! ## Sampled scans -/

/-- Visiting ascending documents collects the counts of those that match. -/
theorem Follows.visit_sampled (follows : Follows meaning start handle stands)
    (standing : stands floor forest) (counts : meaning.capabilities.count = true)
    {sample : List DocId} (ascending : sample.Pairwise fun first second => first < second)
    (behind : ∀ doc ∈ sample, floor ≤ doc.val) (found : Array (DocId × Nat)) :
    ∃ after, visit handle sample found forest =
      .ok (found ++ ((sampled meaning.found sample).map Match.counted).toArray) after := by
  induction sample generalizing forest floor found with
  | nil => exact ⟨forest, by simp [visit, sampled]⟩
  | cons doc sample induction =>
      obtain ⟨above, rest⟩ := List.pairwise_cons.mp ascending
      obtain ⟨here, _⟩ := List.forall_mem_cons.mp behind
      obtain ⟨middle, moved, there, _⟩ := follows.moveTo standing here
      have later : ∀ other ∈ sample, doc.val ≤ other.val :=
        fun other member => Nat.le_of_lt (above other member)
      obtain ⟨current, first, shows⟩ := follows.shows there
      rw [visit, Step.bind_ok _ moved, Step.bind_ok _ (Step.get_run _), shows.position]
      rcases first.found_cases with ⟨current, rfl, same, known⟩ | ⟨elsewhere, unknown⟩
      · obtain ⟨after, run⟩ := induction there rest later (found.push (doc, current.count))
        refine ⟨after, ?_⟩
        rw [sampled, List.filterMap_cons_some known, ← sampled]
        simp only [Option.map_some, same, if_true]
        rw [Step.bind_ok _ (Step.ofExcept_run (shows.count current rfl counts) _), run]
        simp [Match.counted, same]
      · rw [sampled, List.filterMap_cons_none unknown, ← sampled]
        cases current with
        | none =>
            have none : sampled meaning.found sample = [] :=
              List.filterMap_eq_nil_iff.mpr fun other member =>
                first.absent_below (later other member) fun _ impossible => nomatch impossible
            exact ⟨middle, by simp [none]⟩
        | some current =>
            have different : ¬current.doc = doc := fun equal =>
              elsewhere (congrArg some equal)
            obtain ⟨after, run⟩ := induction there rest later found
            refine ⟨after, ?_⟩
            simp only [Option.map_some, if_neg different]
            exact run

/-- A sampled scan of a cursor lists its matches in the documents of the sample. -/
theorem Follows.sampledScan_sampled (follows : Follows meaning start handle stands)
    (standing : stands 0 forest) (counts : meaning.capabilities.count = true)
    {sample : List DocId} (ascending : sample.Pairwise fun first second => first < second) :
    ∃ after, sampledScan handle sample forest =
      .ok ((sampled meaning.found sample).map Match.counted) after := by
  obtain ⟨after, run⟩ :=
    follows.visit_sampled standing counts ascending (fun _ _ => Nat.zero_le _) #[]
  refine ⟨after, ?_⟩
  unfold sampledScan
  rw [Step.bind_ok _ run]
  simp

end Forest

end Concordance
