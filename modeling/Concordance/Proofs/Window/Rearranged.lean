import Concordance.Proofs.Window.Choice

/-!
# Lists in another order

A round of an unordered search drops the head that starts first.  Where the heads of several
lists start together it drops that of the first of them, so that here the order of the lists
matters: the next heads differ, and with them the windows.  It matters nowhere else.  Windows
that start at positions at which no two lists have an extent are the same for any order.
Where the ends ascend, also the narrowest window at each position is.
-/

namespace Concordance

namespace Window

variable {width : Nat}

/-- Lists of which no two have an extent that starts at a position. -/
def Untied (position : Nat) (lists : List (List Extent)) : Prop :=
  lists.Pairwise fun first second =>
    ∀ one ∈ first, ∀ other ∈ second, one.start = position → other.start ≠ position

theorem Untied.perm {position : Nat} {lists others : List (List Extent)}
    (untied : Untied position lists) (perm : lists.Perm others) : Untied position others := by
  refine (perm.pairwise_iff ?_).mp untied
  intro first second apart one isOne other isOther here there
  exact apart other isOther one isOne there here

theorem Untied.sublists {position : Nat} {parts wholes : List (List Extent)}
    (untied : Untied position wholes) (sublists : List.Forall₂ List.Sublist parts wholes) :
    Untied position parts := by
  induction sublists with
  | nil => exact .nil
  | cons here later induction =>
      obtain ⟨first, rest⟩ := List.pairwise_cons.mp untied
      refine List.pairwise_cons.mpr ⟨?_, induction rest⟩
      intro part member one isOne other isOther
      obtain ⟨whole, isWhole, sublist⟩ := exists_related later member
      exact first whole isWhole one (here.mem isOne) other (sublist.mem isOther)

/-- Lists that have no start in common are tied nowhere. -/
theorem untied_of_apart {lists : List (List Extent)}
    (apart : lists.Pairwise fun first second =>
      ∀ one ∈ first, ∀ other ∈ second, one.start ≠ other.start) (position : Nat) :
    Untied position lists := by
  refine apart.imp ?_
  rintro first second different one isOne other isOther rfl there
  exact different one isOne other isOther there.symm

/-! ## One round -/

/-- A list without its head, if that starts at a position. -/
def dropHead (position : Nat) : List Extent → List Extent
  | [] => []
  | head :: later => if head.start = position then later else head :: later

theorem dropHead_eq_self {position : Nat} {list : List Extent}
    (elsewhere : ∀ extent ∈ list, extent.start ≠ position) : dropHead position list = list := by
  cases list with
  | nil => rfl
  | cons head later => exact if_neg (elsewhere head List.mem_cons_self)

/-- Without a tie a round may drop heads in all lists alike. -/
theorem dropStart_eq_map {position : Nat} {lists : List (List Extent)}
    (untied : Untied position lists) : dropStart position lists = lists.map (dropHead position) := by
  induction lists with
  | nil => rfl
  | cons list lists induction =>
      obtain ⟨first, rest⟩ := List.pairwise_cons.mp untied
      cases list with
      | nil => exact congrArg ([] :: ·) (induction rest)
      | cons head later =>
          rw [dropStart, List.map_cons, dropHead]
          by_cases starts : head.start = position
          · have others : lists.map (dropHead position) = lists := by
              refine (List.map_congr_left fun list member => ?_).trans lists.map_id
              exact dropHead_eq_self fun extent inside =>
                first list member head List.mem_cons_self extent inside starts
            rw [if_pos starts, if_pos starts, others]
          · rw [if_neg starts, if_neg starts, induction rest]

theorem dropStart_perm {position : Nat} {lists others : List (List Extent)}
    (perm : lists.Perm others) (untied : Untied position lists) :
    (dropStart position lists).Perm (dropStart position others) := by
  rw [dropStart_eq_map untied, dropStart_eq_map (untied.perm perm)]
  exact perm.map _

/-- The least extent around some extents does not depend on their order. -/
theorem Covers.unique {whole other : Extent} {extents others : List Extent}
    (covers : Covers whole extents) (rival : Covers other others) (perm : extents.Perm others) :
    whole = other := by
  obtain ⟨_, isFirst, starts⟩ := covers.starts
  obtain ⟨_, isLast, stops⟩ := covers.stops
  obtain ⟨_, isFirstOther, startsOther⟩ := rival.starts
  obtain ⟨_, isLastOther, stopsOther⟩ := rival.stops
  have before := rival.before _ (perm.mem_iff.mp isFirst)
  have beyond := rival.beyond _ (perm.mem_iff.mp isLast)
  have beforeOther := covers.before _ (perm.mem_iff.mpr isFirstOther)
  have beyondOther := covers.beyond _ (perm.mem_iff.mpr isLastOther)
  cases whole
  cases other
  dsimp only at *
  congr 1 <;> omega

/-! ## Rounds up to a position -/

/-- As long as no two heads start together, the rounds over lists in any order leave the same
windows. -/
theorem Rounds.rearranged {lists others : List (List Extent)} {windows rivals : List Extent}
    {bound : Nat} (rounds : Rounds width lists windows) (rival : Rounds width others rivals)
    (perm : lists.Perm others) (wellOrdered : ∀ list ∈ lists, Extent.WellOrdered list)
    (untied : ∀ position < bound, Untied position lists) :
    (windows.filter fun window : Extent => window.start < bound) =
      rivals.filter fun window : Extent => window.start < bound := by
  induction rounds generalizing others rivals with
  | ended missing =>
      cases rival with
      | ended => rfl
      | again occupied => exact absurd rfl (occupied [] (perm.mem_iff.mp missing))
  | @again lists windows whole occupied covers forward later induction =>
      cases rival with
      | ended missing => exact absurd rfl (occupied [] (perm.mem_iff.mpr missing))
      | again occupiedOther coversOther forwardOther laterOther =>
          obtain rfl := covers.unique coversOther (perm.filterMap _)
          by_cases early : whole.start < bound
          · have sublists := dropStart_sublists whole.start lists
            have same := induction laterOther (dropStart_perm perm (untied _ early))
              (dropStart_wellOrdered wellOrdered)
              fun position less => (untied position less).sublists sublists
            rw [List.filter_append, List.filter_append, same]
          · -- From here on all windows start behind the bound.
            have behind := covers.before_all wellOrdered
            have wellOrderedOther : ∀ list ∈ others, Extent.WellOrdered list :=
              fun list member => wellOrdered list (perm.mem_iff.mpr member)
            have late : ∀ window : Extent, whole.start ≤ window.start →
                ¬decide (window.start < bound) = true := by
              intro window reached less
              have := of_decide_eq_true less
              omega
            rw [List.filter_eq_nil_iff.mpr fun window found => late window
                ((Rounds.again occupied covers forward later).behind behind window found),
              List.filter_eq_nil_iff.mpr fun window found => late window
                ((Rounds.again occupiedOther coversOther forwardOther laterOther).behind
                  (coversOther.before_all wellOrderedOther) window found)]

/-! ## Rounds from a position on -/

/-- What is left of a list from a position on. -/
def ahead (position : Nat) (list : List Extent) : List Extent :=
  list.dropWhile fun extent => extent.start < position

theorem ahead_sublist (position : Nat) (list : List Extent) :
    (ahead position list).Sublist list := List.dropWhile_sublist _

theorem ahead_sublists (position : Nat) (lists : List (List Extent)) :
    List.Forall₂ List.Sublist (lists.map (ahead position)) lists := by
  refine List.forall₂_map_left_iff.mpr (List.forall₂_same.mpr fun list _ => ?_)
  exact ahead_sublist position list

theorem ahead_wellOrdered {position : Nat} {lists : List (List Extent)}
    (wellOrdered : ∀ list ∈ lists, Extent.WellOrdered list) :
    ∀ list ∈ lists.map (ahead position), Extent.WellOrdered list := by
  intro list member
  obtain ⟨source, inside, part⟩ := exists_related (ahead_sublists position lists) member
  exact (wellOrdered source inside).sublist part

theorem ahead_eq_self {position : Nat} {list : List Extent}
    (behind : ∀ extent ∈ list, position ≤ extent.start) : ahead position list = list := by
  cases list with
  | nil => rfl
  | cons head later =>
      have reached := behind head List.mem_cons_self
      exact List.dropWhile_cons_of_neg (by simpa using reached)

/-- Of sorted lists nothing starts in front of the position from which they are left. -/
theorem ahead_behind {position : Nat} {lists : List (List Extent)}
    (wellOrdered : ∀ list ∈ lists, Extent.WellOrdered list) :
    ∀ list ∈ lists.map (ahead position), ∀ extent ∈ list, position ≤ extent.start := by
  intro list member extent inside
  have sorted := ahead_wellOrdered wellOrdered list member
  obtain ⟨source, _, rfl⟩ := List.mem_map.mp member
  cases left : ahead position source with
  | nil => simp [left] at inside
  | cons head later =>
      rw [left] at inside sorted
      have stopped := List.head?_dropWhile_not (fun extent => extent.start < position) source
      rw [← ahead, left] at stopped
      have reached : position ≤ head.start := by simpa using stopped
      exact reached.trans (start_le_of_mem sorted extent inside)

/-- A head in front of a position makes no difference from there on. -/
theorem map_ahead_dropStart {start position : Nat} (before : start < position)
    (lists : List (List Extent)) :
    (dropStart start lists).map (ahead position) = lists.map (ahead position) := by
  induction lists with
  | nil => rfl
  | cons list lists induction =>
      cases list with
      | nil => exact congrArg ([] :: ·) induction
      | cons head later =>
          rw [dropStart]
          split
          · rename_i starts
            have passed : head.start < position := starts ▸ before
            rw [List.map_cons, List.map_cons]
            congr 1
            exact (List.dropWhile_cons_of_pos (by simpa using passed)).symm
          · rw [List.map_cons, List.map_cons, induction]

/-- The windows from a position on are left by the rounds over what is left from there on. -/
theorem Rounds.ahead {lists : List (List Extent)} {windows : List Extent}
    (rounds : Rounds width lists windows)
    (wellOrdered : ∀ list ∈ lists, Extent.WellOrdered list) (position : Nat) :
    Rounds width (lists.map (ahead position))
      (windows.filter fun window => position ≤ window.start) := by
  induction rounds with
  | ended missing => exact .ended (List.mem_map.mpr ⟨[], missing, rfl⟩)
  | @again lists windows whole occupied covers forward later induction =>
      by_cases before : whole.start < position
      · have left := induction (dropStart_wellOrdered wellOrdered)
        have passed : ((fitting width whole).filter fun window => position ≤ window.start) = [] := by
          refine List.filter_eq_nil_iff.mpr fun window found reached => ?_
          obtain ⟨rfl, _⟩ := mem_fitting.mp found
          exact Nat.not_le.mpr before (of_decide_eq_true reached)
        rw [map_ahead_dropStart before] at left
        rw [List.filter_append, passed, List.nil_append]
        exact left
      · have whole := Rounds.again occupied covers forward later
        have behind : ∀ list ∈ lists, ∀ extent ∈ list, position ≤ extent.start :=
          fun list member extent inside =>
            (Nat.not_lt.mp before).trans (covers.before_all wellOrdered list member extent inside)
        have same : lists.map (Window.ahead position) = lists :=
          (List.map_congr_left fun list member => ahead_eq_self (behind list member)).trans
            lists.map_id
        rw [same, List.filter_eq_self.mpr fun window found =>
          decide_eq_true (whole.behind behind window found)]
        exact whole

/-! ## The first window at a position -/

theorem Rounds.eq_nil {lists : List (List Extent)} {windows : List Extent}
    (rounds : Rounds width lists windows) (missing : [] ∈ lists) : windows = [] := by
  cases rounds with
  | ended => rfl
  | again occupied => exact absurd rfl (occupied [] missing)

theorem Rounds.present {lists : List (List Extent)} {windows : List Extent}
    (rounds : Rounds width lists windows) : lists ≠ [] := by
  rintro rfl
  cases rounds with
  | ended impossible => cases impossible
  | again _ covers =>
      obtain ⟨_, impossible, _⟩ := covers.starts
      cases impossible

/-- Where the ends ascend, no window ends before the heads do. -/
theorem Rounds.heads_stop_le {lists : List (List Extent)} {windows : List Extent} {whole : Extent}
    (rounds : Rounds width lists windows) (covers : Covers whole (heads lists))
    (ascending : ∀ list ∈ lists, Extent.StopsAscend list) :
    ∀ window ∈ windows, whole.stop ≤ window.stop := by
  intro window found
  obtain ⟨⟨chosen, choice, spans⟩, _⟩ := rounds.choice found
  exact choice.heads_stop_le spans ascending covers

/-- Where the ends ascend and nothing starts in front of a position, the first window there is
what the heads cover, if that starts there and is near enough. -/
theorem Rounds.find_opening {lists : List (List Extent)} {windows : List Extent} {whole : Extent}
    (rounds : Rounds width lists windows) (occupied : ∀ list ∈ lists, list ≠ [])
    (covers : Covers whole (heads lists))
    (wellOrdered : ∀ list ∈ lists, Extent.WellOrdered list)
    (ascending : ∀ list ∈ lists, Extent.StopsAscend list) {position : Nat}
    (behind : ∀ list ∈ lists, ∀ extent ∈ list, position ≤ extent.start) :
    (windows.find? fun window => window.start = position) =
      if whole.start = position ∧ whole.stop - whole.start ≤ width then some whole else none := by
  split
  · rename_i opens
    cases rounds with
    | ended missing => exact absurd rfl (occupied [] missing)
    | again _ coversToo _ _ =>
        obtain rfl := covers.unique coversToo (List.Perm.refl _)
        rw [fitting, if_pos opens.2]
        exact List.find?_cons_of_pos (decide_eq_true opens.1)
  · rename_i closed
    refine List.find?_eq_none.mpr fun window found starts => closed ?_
    have here := of_decide_eq_true starts
    have later := rounds.behind (covers.before_all wellOrdered) window found
    have wider := rounds.heads_stop_le covers ascending window found
    obtain ⟨_, _, narrow⟩ := rounds.choice found
    obtain ⟨head, isHead, opens⟩ := covers.starts
    obtain ⟨list, member, inside⟩ := mem_of_mem_heads isHead
    have floor := behind list member head inside
    omega

/-- The windows at a position are those at the front of what is left from there on. -/
theorem find?_filter_behind (windows : List Extent) (position : Nat) :
    ((windows.filter fun window => position ≤ window.start).find?
      fun window => window.start = position) =
      windows.find? fun window => window.start = position := by
  rw [List.find?_filter]
  congr 1
  funext window
  by_cases here : window.start = position <;> simp [here]

/-- Where the ends ascend, the first window at each position is the same for lists in any
order, and it is the narrowest there. -/
theorem Rounds.find_rearranged {lists others : List (List Extent)}
    {windows rivals : List Extent} (rounds : Rounds width lists windows)
    (rival : Rounds width others rivals) (perm : lists.Perm others)
    (wellOrdered : ∀ list ∈ lists, Extent.WellOrdered list)
    (ascending : ∀ list ∈ lists, Extent.StopsAscend list) (position : Nat) :
    (windows.find? fun window => window.start = position) =
        (rivals.find? fun window => window.start = position) ∧
      ∀ first, (windows.find? fun window => window.start = position) = some first →
        ∀ window ∈ windows, window.start = position → first.stop ≤ window.stop := by
  have wellOrderedOther : ∀ list ∈ others, Extent.WellOrdered list :=
    fun list member => wellOrdered list (perm.mem_iff.mpr member)
  have permLeft := perm.map (Window.ahead position)
  have roundsLeft := rounds.ahead wellOrdered position
  have rivalLeft := rival.ahead wellOrderedOther position
  have ascendingLeft : ∀ list ∈ lists.map (Window.ahead position), Extent.StopsAscend list := by
    intro list member
    obtain ⟨source, inside, part⟩ := exists_related (ahead_sublists position lists) member
    exact (ascending source inside).sublist part
  have ascendingOther : ∀ list ∈ others.map (Window.ahead position), Extent.StopsAscend list :=
    fun list member => ascendingLeft list (permLeft.mem_iff.mpr member)
  rw [← find?_filter_behind windows, ← find?_filter_behind rivals]
  by_cases missing : [] ∈ lists.map (Window.ahead position)
  · rw [roundsLeft.eq_nil missing, rivalLeft.eq_nil (permLeft.mem_iff.mp missing)]
    exact ⟨rfl, fun _ impossible => nomatch impossible⟩
  · have occupied := occupied_of_not_mem missing
    have occupiedOther := occupied_of_not_mem (permLeft.mem_iff.not.mp missing)
    have present := roundsLeft.present
    have presentOther := rivalLeft.present
    obtain ⟨whole, _, covers⟩ := cover_heads present occupied
    obtain ⟨other, _, coversOther⟩ := cover_heads presentOther occupiedOther
    obtain rfl := covers.unique coversOther (permLeft.filterMap _)
    rw [roundsLeft.find_opening occupied covers (ahead_wellOrdered wellOrdered) ascendingLeft
        (ahead_behind wellOrdered),
      rivalLeft.find_opening occupiedOther coversOther (ahead_wellOrdered wellOrderedOther)
        ascendingOther (ahead_behind wellOrderedOther)]
    refine ⟨rfl, fun first isFirst window found starts => ?_⟩
    have opens : whole = first := by
      split at isFirst
      · exact Option.some.inj isFirst
      · cases isFirst
    subst opens
    refine roundsLeft.heads_stop_le covers ascendingLeft window ?_
    exact List.mem_filter.mpr ⟨found, decide_eq_true (Nat.le_of_eq starts.symm)⟩

/-! ## The whole search -/

/-- How the windows of some lists and those of the same lists in another order compare. -/
structure Alike (lists : List (List Extent)) (windows rivals : List Extent) : Prop where
  apart : ∀ position, Untied position lists →
    (windows.filter fun window => window.start = position) =
      rivals.filter fun window => window.start = position
  all : (∀ position, Untied position lists) → windows = rivals
  narrowest : (∀ list ∈ lists, Extent.StopsAscend list) → ∀ position,
    (windows.find? fun window => window.start = position) =
        (rivals.find? fun window => window.start = position) ∧
      ∀ first, (windows.find? fun window => window.start = position) = some first →
        ∀ window ∈ windows, window.start = position → first.stop ≤ window.stop

theorem eq_nil_iff_find? {windows : List Extent} :
    windows = [] ↔ ∀ position, (windows.find? fun window => window.start = position) = none := by
  constructor
  · rintro rfl _
    rfl
  · intro nowhere
    refine List.eq_nil_iff_forall_not_mem.mpr fun window found => ?_
    exact List.find?_eq_none.mp (nowhere window.start) window found (decide_eq_true rfl)

theorem Alike.nil_iff {lists : List (List Extent)} {windows rivals : List Extent}
    (alike : Alike lists windows rivals)
    (ascending : ∀ list ∈ lists, Extent.StopsAscend list) : windows = [] ↔ rivals = [] := by
  rw [eq_nil_iff_find?, eq_nil_iff_find?]
  refine forall_congr' fun position => ?_
  rw [(alike.narrowest ascending position).1]

theorem filter_between (windows : List Extent) (position : Nat) :
    ((windows.filter fun window => position ≤ window.start).filter
      fun window : Extent => window.start < position + 1) =
      windows.filter fun window => window.start = position := by
  rw [List.filter_filter]
  congr 1
  funext window
  rw [← Bool.decide_and]
  exact decide_eq_decide.mpr (by omega)

theorem Rounds.alike {lists others : List (List Extent)} {windows rivals : List Extent}
    (rounds : Rounds width lists windows) (rival : Rounds width others rivals)
    (perm : lists.Perm others) (wellOrdered : ∀ list ∈ lists, Extent.WellOrdered list) :
    Alike lists windows rivals := by
  have wellOrderedOther : ∀ list ∈ others, Extent.WellOrdered list :=
    fun list member => wellOrdered list (perm.mem_iff.mpr member)
  refine ⟨fun position untied => ?_, fun untied => ?_, fun ascending position => ?_⟩
  · rw [← filter_between windows, ← filter_between rivals]
    have behind := @ahead_behind position _ wellOrdered
    refine (rounds.ahead wellOrdered position).rearranged
      (rival.ahead wellOrderedOther position) (perm.map _) (ahead_wellOrdered wellOrdered) ?_
    intro earlier less
    rcases Nat.lt_succ_iff_lt_or_eq.mp less with before | rfl
    · -- Nothing is left in front of the position.
      refine List.pairwise_of_forall_mem_list fun first isFirst second _ one isOne _ _ starts => ?_
      have := behind first isFirst one isOne
      omega
    · exact untied.sublists (ahead_sublists _ lists)
  · have same := rounds.rearranged rival perm wellOrdered fun position (_ : position < 4294967296) =>
      untied position
    rwa [List.filter_eq_self.mpr fun window _ => decide_eq_true window.start_lt,
      List.filter_eq_self.mpr fun window _ => decide_eq_true window.start_lt] at same
  · exact rounds.find_rearranged rival perm wellOrdered ascending position

/-- The windows of lists in two orders. -/
theorem unordered_alike (width : Nat) {lists others : List (List Extent)} (present : lists ≠ [])
    (perm : lists.Perm others) (wellOrdered : ∀ list ∈ lists, Extent.WellOrdered list) :
    ∃ windows rivals, unordered width lists = .ok windows ∧
      unordered width others = .ok rivals ∧ Alike lists windows rivals := by
  have forward : Forward lists := fun list member => (wellOrdered list member).forward
  have presentOther : others ≠ [] := by
    rintro rfl
    exact present perm.eq_nil
  obtain ⟨windows, found, rounds⟩ := unordered_rounds width present forward
  obtain ⟨rivals, foundOther, rival⟩ := unordered_rounds width presentOther
    fun list member => forward list (perm.mem_iff.mpr member)
  exact ⟨windows, rivals, found, foundOther, rounds.alike rival perm wellOrdered⟩

/-- Of two extents that start together the one is dropped first whose list comes first, and
a window is found or not. -/
theorem unordered_tied :
    ¬∀ (width : Nat) (lists others : List (List Extent)), lists ≠ [] → lists.Perm others →
      (∀ list ∈ lists, Extent.WellOrdered list) →
      ∃ windows rivals, unordered width lists = .ok windows ∧
        unordered width others = .ok rivals ∧ windows.Perm rivals := by
  intro alike
  let points (positions : List Nat) : List Extent :=
    positions.map fun position => .ofNats position (position + 1)
  obtain ⟨windows, rivals, found, foundOther, perm⟩ :=
    alike 6 [points [0, 5], points [0, 7]] [points [0, 7], points [0, 5]]
      (List.cons_ne_nil _ _) (.swap _ _ _) (by decide)
  have three : (unordered 6 [points [0, 5], points [0, 7]]).map List.length = .ok 3 := by cbv
  have two : (unordered 6 [points [0, 7], points [0, 5]]).map List.length = .ok 2 := by cbv
  rw [found] at three
  rw [foundOther] at two
  injection three with three
  injection two with two
  have same := perm.length_eq
  omega

end Window

end Concordance
