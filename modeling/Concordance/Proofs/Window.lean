import Concordance.Proofs.Window.Rounds

/-!
# Windows over well-ordered lists

Over lists of extents that are well-ordered every search for windows succeeds,
and the windows it finds are well-ordered again.  A window can therefore be an
extent of the windows around it.
-/

namespace Concordance

namespace Window

theorem forward_cons {list : List Extent} {lists : List (List Extent)} :
    Forward (list :: lists) ↔
      (∀ extent ∈ list, extent.start ≤ extent.stop) ∧ Forward lists := by
  unfold Forward
  rw [List.forall_mem_cons]

/-! ## Ordered windows -/

theorem reached_of_dropWhile {stop : Nat} {next : Extent} {extents later : List Extent}
    (ahead : (extents.dropWhile fun other => other.start < stop) = next :: later) :
    stop ≤ next.start := by
  have stops := List.head?_dropWhile_not (fun other : Extent => other.start < stop) extents
  rw [ahead] at stops
  simpa using stops

theorem sublist_of_dropWhile {stop : Nat} {extents left : List Extent}
    (ahead : (extents.dropWhile fun other => other.start < stop) = left) :
    left.Sublist extents := by
  rw [← ahead]
  exact List.dropWhile_sublist _

/-- What is left behind a chain is the right way round, and a complete chain ends
at or behind the extent it follows. -/
theorem follow_forward (width : Nat) {lists : List (List Extent)} (forward : Forward lists)
    (last : Extent) :
    Forward (follow width last lists).2 ∧
      ∀ final, (follow width last lists).1 = .complete final → last.stop ≤ final.stop := by
  induction lists generalizing last with
  | nil =>
      refine ⟨forward, ?_⟩
      intro final complete
      cases complete
      exact Nat.le_refl _
  | cons list lists induction =>
      obtain ⟨first, others⟩ := forward_cons.mp forward
      rw [follow]
      cases ahead : list.dropWhile fun extent => extent.start < last.stop with
      | nil => exact ⟨forward_cons.mpr ⟨by simp, others⟩, fun _ ended => nomatch ended⟩
      | cons next later =>
          have kept : ∀ extent ∈ next :: later, extent.start ≤ extent.stop := by
            intro extent member
            exact first extent ((sublist_of_dropWhile ahead).mem member)
          have reached := reached_of_dropWhile ahead
          dsimp only
          by_cases far : width ≤ next.start - last.stop
          · rw [if_pos far]
            exact ⟨forward_cons.mpr ⟨kept, others⟩, fun _ broken => nomatch broken⟩
          · rw [if_neg far]
            obtain ⟨rest, behind⟩ := induction others next
            refine ⟨forward_cons.mpr ⟨kept, rest⟩, ?_⟩
            intro final complete
            have forwardNext := kept next List.mem_cons_self
            have inner := behind final complete
            omega

/-- The windows found are the right way round, and they start where some of the
first extents start, in the same order. -/
theorem sweepOrdered_forward (width : Nat) {firsts : List Extent} {lists : List (List Extent)}
    (found : Array Extent) (forwardFirsts : ∀ first ∈ firsts, first.start ≤ first.stop)
    (forward : Forward lists) :
    ∃ windows : List Extent, sweepOrdered width firsts lists found = found ++ windows.toArray ∧
      (∀ window ∈ windows, window.start ≤ window.stop) ∧
      (windows.map Extent.start).Sublist (firsts.map Extent.start) := by
  induction firsts generalizing lists found with
  | nil => exact ⟨[], by simp [sweepOrdered], by simp, List.Sublist.refl _⟩
  | cons first firsts induction =>
      obtain ⟨here, later⟩ := List.forall_mem_cons.mp forwardFirsts
      obtain ⟨rest, behind⟩ := follow_forward width forward first
      rw [sweepOrdered]
      cases followed : follow width first lists with
      | mk chain left =>
          rw [followed] at rest behind
          cases chain with
          | complete last =>
              have reached := behind last rfl
              let window : Extent := ⟨first.start, last.stop, first.start_lt, last.stop_lt⟩
              obtain ⟨windows, same, forwardWindows, starts⟩ :=
                induction (found.push window) later rest
              refine ⟨window :: windows, ?_, ?_, starts.cons_cons _⟩
              · dsimp only
                rw [same]
                apply Array.toList_inj.mp
                simp
              · exact List.forall_mem_cons.mpr ⟨Nat.le_trans here reached, forwardWindows⟩
          | broken =>
              obtain ⟨windows, same, forwardWindows, starts⟩ := induction found later rest
              exact ⟨windows, same, forwardWindows, starts.cons _⟩
          | ended => exact ⟨[], by simp, by simp, List.nil_sublist _⟩

theorem ordered_wellOrdered (width : Nat) {lists : List (List Extent)}
    (wellOrdered : ∀ list ∈ lists, Extent.WellOrdered list) :
    Extent.WellOrdered (ordered width lists) := by
  unfold ordered
  by_cases missing : lists.any List.isEmpty = true
  · rw [if_pos missing]
    exact ⟨by simp, .nil⟩
  · rw [if_neg missing]
    cases lists with
    | nil => exact ⟨by simp, .nil⟩
    | cons firsts others =>
        obtain ⟨first, later⟩ := List.forall_mem_cons.mp wellOrdered
        obtain ⟨windows, same, forward, starts⟩ := sweepOrdered_forward width #[] first.forward
          (fun list member => (later list member).forward)
        dsimp only
        rw [same, Array.empty_append]
        refine ⟨forward, ?_⟩
        have ascending := (List.pairwise_map.mpr first.ascending).sublist starts
        exact List.pairwise_map.mp ascending

/-! ## Any windows -/

theorem find_missing (order : Order) (width : Nat) {lists : List (List Extent)}
    (missing : lists.any List.isEmpty = true) : find order width lists = .ok [] := by
  cases order with
  | ordered =>
      unfold find ordered
      dsimp only
      rw [if_pos missing]
  | unordered =>
      unfold find unordered
      dsimp only
      cases lists.flatten.length with
      | zero => rfl
      | succ limit =>
          rw [sweepUnordered, if_pos missing]
          rfl

/-- Every search over well-ordered lists finds well-ordered windows. -/
theorem find_ok (order : Order) (width : Nat) {lists : List (List Extent)}
    (wellOrdered : ∀ list ∈ lists, Extent.WellOrdered list) :
    ∃ windows, find order width lists = .ok windows ∧ Extent.WellOrdered windows := by
  cases order with
  | ordered => exact ⟨_, rfl, ordered_wellOrdered width wellOrdered⟩
  | unordered =>
      by_cases present : lists = []
      · subst present
        exact ⟨[], rfl, List.forall_mem_nil _, .nil⟩
      · obtain ⟨windows, searched, rounds⟩ := unordered_rounds width present
          fun list member => (wellOrdered list member).forward
        exact ⟨windows, searched, rounds.wellOrdered wellOrdered⟩

/-! ## The number of windows -/

/-- Over well-ordered lists there are no more ordered windows than extents. -/
theorem length_ordered_le (width : Nat) {lists : List (List Extent)}
    (wellOrdered : ∀ list ∈ lists, Extent.WellOrdered list) :
    (ordered width lists).length ≤ lists.flatten.length := by
  unfold ordered
  by_cases missing : lists.any List.isEmpty = true
  · rw [if_pos missing]
    exact Nat.zero_le _
  · rw [if_neg missing]
    cases lists with
    | nil => exact Nat.zero_le _
    | cons firsts others =>
        obtain ⟨first, later⟩ := List.forall_mem_cons.mp wellOrdered
        obtain ⟨windows, same, _, starts⟩ := sweepOrdered_forward width #[] first.forward
          (fun list member => (later list member).forward)
        have few := starts.length_le
        rw [List.length_map, List.length_map] at few
        dsimp only
        rw [same, Array.empty_append, List.flatten_cons, List.length_append]
        exact Nat.le_trans few (Nat.le_add_right _ _)

theorem sweepUnordered_size {width limit : Nat} {lists : List (List Extent)}
    {found result : Array Extent} (swept : sweepUnordered width limit lists found = .ok result) :
    result.size ≤ found.size + limit := by
  induction limit generalizing lists found with
  | zero =>
      cases swept
      exact Nat.le_refl _
  | succ limit induction =>
      rw [sweepUnordered] at swept
      by_cases missing : lists.any List.isEmpty = true
      · rw [if_pos missing] at swept
        cases swept
        exact Nat.le_add_right _ _
      · rw [if_neg missing] at swept
        cases covered : cover (heads lists) with
        | none =>
            rw [covered] at swept
            cases swept
            exact Nat.le_add_right _ _
        | some whole =>
            rw [covered] at swept
            dsimp only at swept
            by_cases backward : whole.stop < whole.start
            · rw [if_pos backward] at swept
              cases swept
            · rw [if_neg backward] at swept
              have later := induction swept
              by_cases narrow : whole.stop - whole.start ≤ width
              · rw [if_pos narrow, Array.size_push] at later
                omega
              · rw [if_neg narrow] at later
                omega

/-- There are no more unordered windows than extents to begin with. -/
theorem length_unordered_le {width : Nat} {lists : List (List Extent)} {windows : List Extent}
    (found : unordered width lists = .ok windows) : windows.length ≤ lists.flatten.length := by
  unfold unordered at found
  cases swept : sweepUnordered width lists.flatten.length lists #[] with
  | error cause =>
      rw [swept] at found
      cases found
  | ok result =>
      rw [swept] at found
      cases found
      simpa using sweepUnordered_size swept

/-- There are no more windows than extents to begin with. -/
theorem length_find_le {order : Order} {width : Nat} {lists : List (List Extent)}
    {windows : List Extent} (wellOrdered : ∀ list ∈ lists, Extent.WellOrdered list)
    (searched : find order width lists = .ok windows) :
    windows.length ≤ lists.flatten.length := by
  cases order with
  | ordered =>
      cases searched
      exact length_ordered_le width wellOrdered
  | unordered => exact length_unordered_le searched

end Window

end Concordance
