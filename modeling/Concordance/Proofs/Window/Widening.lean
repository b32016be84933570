import Concordance.Proofs.Window.Chain

/-!
# Wider windows

A wider search finds all that a narrower one finds.  For an unordered search this holds over any
lists: the width only decides which of its rounds leave a window.  An ordered search goes from
each extent to the nearest one of the next list, and the width decides how far it follows a chain
before it gives it up.  Where the ends ascend in the lists between the first and the last this
makes no difference to later chains, so that its windows can be told without regard to what it
has passed.
-/

namespace Concordance

namespace Window

variable {width narrow wide : Nat}

/-! ## Unordered windows -/

theorem sweepUnordered_widens (less : narrow ≤ wide) {limit : Nat} {lists : List (List Extent)}
    {found foundWide windows : Array Extent} (part : found.toList.Sublist foundWide.toList)
    (swept : sweepUnordered narrow limit lists found = .ok windows) :
    ∃ more, sweepUnordered wide limit lists foundWide = .ok more ∧
      windows.toList.Sublist more.toList := by
  induction limit generalizing lists found foundWide with
  | zero =>
      cases swept
      exact ⟨foundWide, rfl, part⟩
  | succ limit induction =>
      rw [sweepUnordered] at swept ⊢
      by_cases missing : lists.any List.isEmpty = true
      · rw [if_pos missing] at swept ⊢
        cases swept
        exact ⟨foundWide, rfl, part⟩
      · rw [if_neg missing] at swept ⊢
        cases covered : cover (heads lists) with
        | none =>
            rw [covered] at swept
            cases swept
            exact ⟨foundWide, rfl, part⟩
        | some whole =>
            rw [covered] at swept
            dsimp only at swept ⊢
            by_cases backward : whole.stop < whole.start
            · rw [if_pos backward] at swept
              cases swept
            · rw [if_neg backward] at swept ⊢
              refine induction ?_ swept
              by_cases few : whole.stop - whole.start ≤ narrow
              · rw [if_pos few, if_pos (Nat.le_trans few less), Array.toList_push,
                  Array.toList_push]
                exact part.append (List.Sublist.refl _)
              · rw [if_neg few]
                by_cases many : whole.stop - whole.start ≤ wide
                · rw [if_pos many, Array.toList_push]
                  exact part.trans (List.sublist_append_left _ _)
                · rw [if_neg many]
                  exact part

theorem unordered_widens (less : narrow ≤ wide) {lists : List (List Extent)}
    {windows : List Extent} (found : unordered narrow lists = .ok windows) :
    ∃ more, unordered wide lists = .ok more ∧ windows.Sublist more := by
  unfold unordered at found ⊢
  cases swept : sweepUnordered narrow lists.flatten.length lists #[] with
  | error cause =>
      rw [swept] at found
      cases found
  | ok result =>
      rw [swept] at found
      cases found
      obtain ⟨more, sweptWide, part⟩ := sweepUnordered_widens less (List.Sublist.refl _) swept
      exact ⟨more.toList, by rw [sweptWide]; rfl, part⟩

/-! ## Chains behind an earlier one -/

/-- Lists of which all but the last end in the order in which they start. -/
def Ascending (lists : List (List Extent)) : Prop :=
  ∀ list ∈ lists.dropLast, Extent.StopsAscend list

theorem Ascending.sublists {parts wholes : List (List Extent)} (ascending : Ascending wholes)
    (sublists : List.Forall₂ List.Sublist parts wholes) : Ascending parts := by
  intro part member
  obtain ⟨whole, isWhole, sublist⟩ := exists_related (forall₂_dropLast sublists) member
  exact (ascending whole isWhole).sublist sublist

theorem Ascending.tail {list : List Extent} {lists : List (List Extent)}
    (ascending : Ascending (list :: lists)) : Ascending lists :=
  fun other member => ascending other (mem_dropLast_cons member)

theorem Ascending.head {list : List Extent} {lists : List (List Extent)}
    (ascending : Ascending (list :: lists)) (inner : lists ≠ []) : Extent.StopsAscend list :=
  ascending list (by simp [List.dropLast_cons_of_ne_nil inner])

/-- Passing what lies before a position makes no difference to passing what lies before a later
one. -/
theorem dropWhile_again {first second : Nat} (before : first ≤ second) (extents : List Extent) :
    ((extents.dropWhile fun other => other.start < first).dropWhile
      fun other => other.start < second) =
      extents.dropWhile fun other => other.start < second := by
  induction extents with
  | nil => rfl
  | cons extent extents induction =>
      by_cases passed : extent.start < first
      · have alsoPassed : extent.start < second := Nat.lt_of_lt_of_le passed before
        simp only [List.dropWhile_cons, passed, alsoPassed, decide_true, if_true, induction]
      · simp [List.dropWhile_cons, passed]

/-- Following a chain from one extent makes no difference to what is found from a later one. -/
theorem follow_again (width other : Nat) {last later : Extent} {lists : List (List Extent)}
    (ascending : Ascending lists) (behind : lists ≠ [] → last.stop ≤ later.stop) :
    (follow width later (follow other last lists).2).1 = (follow width later lists).1 := by
  induction lists generalizing last later with
  | nil => rfl
  | cons list lists induction =>
      have passed := dropWhile_again (behind (List.cons_ne_nil _ _)) list
      cases ahead : list.dropWhile fun extent => extent.start < last.stop with
      | nil =>
          rw [ahead] at passed
          simp only [follow, ahead, ← passed, List.dropWhile_nil]
      | cons next rest =>
          rw [ahead] at passed
          by_cases far : other ≤ next.start - last.stop
          · simp only [follow, ahead, if_pos far, passed]
          · simp only [follow, ahead, if_neg far, passed]
            cases found : list.dropWhile fun extent => extent.start < later.stop with
            | nil => rfl
            | cons chosen left =>
                have kept : chosen ∈ next :: rest := by
                  rw [found] at passed
                  exact (sublist_of_dropWhile passed).mem List.mem_cons_self
                have ordered : lists ≠ [] → next.stop ≤ chosen.stop := by
                  intro inner
                  have stops := (ascending.head inner).sublist (sublist_of_dropWhile ahead)
                  rcases List.mem_cons.mp kept with rfl | inRest
                  · exact Nat.le_refl _
                  · exact (List.pairwise_cons.mp stops).1 chosen inRest
                dsimp only
                split
                · rfl
                · exact induction ascending.tail ordered

/-- No chain is complete where a list is used up. -/
theorem follow_missing {last final : Extent} {lists : List (List Extent)} (missing : [] ∈ lists) :
    (follow width last lists).1 ≠ .complete final := by
  induction lists generalizing last with
  | nil => cases missing
  | cons list lists induction =>
      rw [follow]
      cases ahead : list.dropWhile fun extent => extent.start < last.stop with
      | nil =>
          intro impossible
          cases impossible
      | cons next rest =>
          dsimp only
          split
          · intro impossible
            cases impossible
          · rcases List.mem_cons.mp missing with rfl | later
            · cases ahead
            · exact induction later

/-- A chain ends where it has used a list up. -/
theorem missing_of_ended {last : Extent} {lists : List (List Extent)}
    (ended : (follow width last lists).1 = .ended) : [] ∈ (follow width last lists).2 := by
  induction lists generalizing last with
  | nil => cases ended
  | cons list lists induction =>
      rw [follow] at ended ⊢
      cases ahead : list.dropWhile fun extent => extent.start < last.stop with
      | nil => exact List.mem_cons_self
      | cons next rest =>
          rw [ahead] at ended
          dsimp only at ended ⊢
          split at ended
          · cases ended
          · rename_i near
            rw [if_neg near]
            exact List.mem_cons_of_mem _ (induction ended)

/-! ## Windows without regard to what was passed -/

/-- The window from a first extent, if the chain from the nearest extent of the next list is
complete. -/
def reach (width : Nat) (lists : List (List Extent)) (first next : Extent) : Option Extent :=
  if width ≤ next.start - first.stop then none
  else
    match (follow width next lists).1 with
    | .complete last => some ⟨first.start, last.stop, first.start_lt, last.stop_lt⟩
    | .broken | .ended => none

/-- The windows from some first extents, where only the next list is passed along. -/
def nearest (width : Nat) (lists : List (List Extent)) : List Extent → List Extent → List Extent
  | [], _ => []
  | first :: firsts, list =>
    match list.dropWhile fun extent => extent.start < first.stop with
    | [] => []
    | next :: rest =>
      (reach width lists first next).toList ++ nearest width lists firsts (next :: rest)

theorem nearest_nil {firsts list : List Extent} {lists : List (List Extent)}
    (incomplete : ∀ next ∈ list, ∀ final, (follow width next lists).1 ≠ .complete final) :
    nearest width lists firsts list = [] := by
  induction firsts generalizing list with
  | nil => rfl
  | cons first firsts induction =>
      rw [nearest]
      cases ahead : list.dropWhile fun extent => extent.start < first.stop with
      | nil => rfl
      | cons next rest =>
          have sublist := sublist_of_dropWhile ahead
          have later := induction fun other member => incomplete other (sublist.mem member)
          have here := incomplete next (sublist.mem List.mem_cons_self)
          dsimp only
          rw [later, List.append_nil, reach]
          split
          · rfl
          · split
            · rename_i complete
              exact absurd complete (here _)
            · rfl
            · rfl

/-- Where the ends ascend, a sweep finds what is found without regard to what it has passed. -/
theorem sweepOrdered_nearest {firsts list : List Extent} {lists left : List (List Extent)}
    (found : Array Extent) (ascending : Ascending (list :: left))
    (same : ∀ next ∈ list, (follow width next left).1 = (follow width next lists).1) :
    (sweepOrdered width firsts (list :: left) found).toList =
      found.toList ++ nearest width lists firsts list := by
  induction firsts generalizing list left found with
  | nil => simp [sweepOrdered, nearest]
  | cons first firsts induction =>
      rw [sweepOrdered, nearest, follow]
      cases ahead : list.dropWhile fun extent => extent.start < first.stop with
      | nil => simp
      | cons next rest =>
          have sublist := sublist_of_dropWhile ahead
          have sameAhead := fun other member => same other (sublist.mem member)
          have whole : List.Forall₂ List.Sublist left left :=
            List.forall₂_same.mpr fun other _ => List.Sublist.refl other
          dsimp only
          by_cases far : width ≤ next.start - first.stop
          · rw [reach, if_pos far, if_pos far]
            exact induction found (ascending.sublists (.cons sublist whole)) sameAhead
          · have ascendingLater := ascending.sublists
              (.cons sublist (follow_sublists width next left))
            have behind : ∀ other ∈ next :: rest, left ≠ [] → next.stop ≤ other.stop := by
              intro other member inner
              have stops := (ascending.head inner).sublist sublist
              rcases List.mem_cons.mp member with rfl | later
              · exact Nat.le_refl _
              · exact (List.pairwise_cons.mp stops).1 other later
            have again := fun other member =>
              @follow_again width width next other left ascending.tail (behind other member)
            have kept : ∀ other ∈ next :: rest,
                (follow width other (follow width next left).2).1 =
                  (follow width other lists).1 :=
              fun other member => (again other member).trans (sameAhead other member)
            rw [reach, if_neg far, if_neg far, ← sameAhead next List.mem_cons_self]
            cases chain : (follow width next left).1 with
            | complete last =>
                dsimp only
                rw [induction _ ascendingLater kept]
                simp
            | broken => exact induction found ascendingLater kept
            | ended =>
                have missing := missing_of_ended chain
                rw [nearest_nil fun other member final => kept other member ▸
                  follow_missing missing]
                simp

/-! ## Ordered windows -/

/-- A chain that a narrow search completes is complete for a wide one too. -/
theorem follow_widens (less : narrow ≤ wide) {last final : Extent} {lists : List (List Extent)}
    (complete : (follow narrow last lists).1 = .complete final) :
    (follow wide last lists).1 = .complete final := by
  induction lists generalizing last with
  | nil => exact complete
  | cons list lists induction =>
      obtain ⟨next, rest, ahead, near, complete⟩ := follow_step complete
      rw [follow, ahead]
      dsimp only
      rw [if_neg fun far => near (Nat.le_trans less far)]
      exact induction complete

theorem reach_widens (less : narrow ≤ wide) (lists : List (List Extent)) (first next : Extent) :
    (reach narrow lists first next).toList.Sublist (reach wide lists first next).toList := by
  cases found : reach narrow lists first next with
  | none => exact List.nil_sublist _
  | some window =>
      have same : reach wide lists first next = some window := by
        rw [reach] at found ⊢
        split at found
        · cases found
        · rename_i near
          rw [if_neg fun far => near (Nat.le_trans less far)]
          split at found
          · rename_i complete
            rw [follow_widens less complete]
            exact found
          · cases found
          · cases found
      rw [same]

theorem nearest_widens (less : narrow ≤ wide) (lists : List (List Extent))
    (firsts list : List Extent) :
    (nearest narrow lists firsts list).Sublist (nearest wide lists firsts list) := by
  induction firsts generalizing list with
  | nil => exact List.Sublist.refl _
  | cons first firsts induction =>
      rw [nearest, nearest]
      cases list.dropWhile fun extent => extent.start < first.stop with
      | nil => exact List.Sublist.refl _
      | cons next rest =>
          exact (reach_widens less lists first next).append (induction (next :: rest))

/-- The width does not matter to an ordered search in one list. -/
theorem sweepOrdered_single (firsts : List Extent) (found : Array Extent) :
    sweepOrdered narrow firsts [] found = sweepOrdered wide firsts [] found := by
  induction firsts generalizing found with
  | nil => rfl
  | cons first firsts induction =>
      simp only [sweepOrdered, follow]
      exact induction _

/-- Where the ends ascend in the lists between the first and the last, a wide search finds what
a narrow one finds. -/
theorem ordered_widens (less : narrow ≤ wide) {lists : List (List Extent)}
    (ascending : Ascending lists.tail) : (ordered narrow lists).Sublist (ordered wide lists) := by
  unfold ordered
  by_cases missing : lists.any List.isEmpty = true
  · rw [if_pos missing, if_pos missing]
  · rw [if_neg missing, if_neg missing]
    cases lists with
    | nil => exact List.Sublist.refl _
    | cons firsts others =>
        cases others with
        | nil =>
            dsimp only
            rw [@sweepOrdered_single narrow wide]
        | cons list lists =>
            have nearestAt : ∀ width, (sweepOrdered width firsts (list :: lists) #[]).toList =
                nearest width lists firsts list := by
              intro width
              rw [sweepOrdered_nearest #[] ascending fun _ _ => rfl]
              rfl
            dsimp only
            rw [nearestAt, nearestAt]
            exact nearest_widens less lists firsts list

/-- Lists over which a wider search of some sort loses no window: an ordered search asks that the
ends ascend in the lists between the first and the last. -/
def Steady (order : Order) (lists : List (List Extent)) : Prop :=
  order = .ordered → Ascending lists.tail

/-- A wider search finds all that a narrower one finds. -/
theorem find_widens (order : Order) (less : narrow ≤ wide) {lists : List (List Extent)}
    (wellOrdered : ∀ list ∈ lists, Extent.WellOrdered list) (steady : Steady order lists) :
    ∃ few many, find order narrow lists = .ok few ∧ find order wide lists = .ok many ∧
      few.Sublist many := by
  cases order with
  | ordered => exact ⟨_, _, rfl, rfl, ordered_widens less (steady rfl)⟩
  | unordered =>
      obtain ⟨few, found, _⟩ := find_ok .unordered narrow wellOrdered
      obtain ⟨many, foundWide, part⟩ := unordered_widens less found
      exact ⟨few, many, found, foundWide, part⟩

/-- A long extent in the middle leads a wide search past the only extent of the last list.  A
narrow search gives the chain up before and finds a later one. -/
theorem ordered_loses_nested :
    ¬∀ (narrow wide : Nat) (lists : List (List Extent)), narrow ≤ wide →
      (∀ list ∈ lists, Extent.WellOrdered list) → ordered narrow lists ≠ [] →
      ordered wide lists ≠ [] := by
  intro keeps
  let lists : List (List Extent) :=
    [[.ofNats 0 1, .ofNats 10 11], [.ofNats 5 100, .ofNats 11 12], [.ofNats 12 13]]
  exact keeps 1 5 lists (by decide) (by decide) (by decide) (by decide)

end Window

end Concordance
