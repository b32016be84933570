import Mathlib.Data.List.TakeWhile
import Concordance.Proofs.Window

/-!
# Chains of extents

An ordered search looks for chains: one extent of each list in turn, each behind the one
before and near it.  From one extent it goes on to the nearest one only, and it never looks
back at what it has passed.  Nothing is missed where the ends ascend as the starts do, and
where an extent in the middle of a chain has no near rival with another end.
-/

namespace Concordance

namespace Extent

/-- Extents whose ends ascend. -/
def StopsAscend (extents : List Extent) : Prop :=
  extents.Pairwise fun first second => first.stop ≤ second.stop

/-- Extents of which any two that start less than a width apart end together. -/
def Apart (width : Nat) (extents : List Extent) : Prop :=
  ∀ first ∈ extents, ∀ second ∈ extents, first.start ≤ second.start →
    second.start < first.start + width → first.stop = second.stop

/-- An extent as a single occurrence has it. -/
def IsPoint (extent : Extent) : Prop := extent.stop = min (extent.start + 1) lastPosition

instance (extent : Extent) : Decidable extent.IsPoint := inferInstanceAs (Decidable (_ = _))

theorem IsPoint.forward {extent : Extent} (point : extent.IsPoint) :
    extent.start ≤ extent.stop := by
  have bound := extent.start_lt
  simp only [IsPoint, lastPosition] at point
  omega

instance (extents : List Extent) : Decidable (StopsAscend extents) :=
  inferInstanceAs (Decidable (List.Pairwise _ _))

instance (width : Nat) (extents : List Extent) : Decidable (Apart width extents) :=
  inferInstanceAs (Decidable (∀ first ∈ extents, ∀ second ∈ extents, _))

theorem StopsAscend.sublist {part whole : List Extent} (ascending : StopsAscend whole)
    (sublist : part.Sublist whole) : StopsAscend part := List.Pairwise.sublist sublist ascending

theorem Apart.sublist {width : Nat} {part whole : List Extent} (apart : Apart width whole)
    (sublist : part.Sublist whole) : Apart width part :=
  fun first isFirst second isSecond =>
    apart first (sublist.mem isFirst) second (sublist.mem isSecond)

/-- Plain occurrences end in the order in which they start. -/
theorem stopsAscend_of_points {extents : List Extent}
    (points : ∀ extent ∈ extents, extent.IsPoint)
    (sorted : extents.Pairwise fun first second => first.start ≤ second.start) :
    StopsAscend extents := by
  apply sorted.imp_of_mem
  intro first second isFirst isSecond before
  rw [points first isFirst, points second isSecond]
  omega

end Extent

namespace Window

variable {width : Nat}

/-- One extent of each of several lists in turn, each starting at or behind the end of the
one before and less than the width behind it. -/
inductive Linked (width : Nat) : Extent → List (List Extent) → Prop where
  | nil {last : Extent} : Linked width last []
  | cons {last next : Extent} {list : List Extent} {lists : List (List Extent)}
      (member : next ∈ list) (reached : last.stop ≤ next.start)
      (near : next.start < last.stop + width) (later : Linked width next lists) :
      Linked width last (list :: lists)

theorem Linked.congr {last other : Extent} {lists : List (List Extent)}
    (linked : Linked width last lists) (same : last.stop = other.stop) :
    Linked width other lists := by
  cases linked with
  | nil => exact .nil
  | cons member reached near later =>
      exact .cons member (same ▸ reached) (same ▸ near) later

theorem linked_cons_iff {last : Extent} {list : List Extent} {lists : List (List Extent)} :
    Linked width last (list :: lists) ↔
      ∃ next ∈ list, (last.stop ≤ next.start ∧ next.start < last.stop + width) ∧
        Linked width next lists := by
  constructor
  · intro linked
    cases linked with
    | cons member reached near later => exact ⟨_, member, ⟨reached, near⟩, later⟩
  · rintro ⟨next, member, ⟨reached, near⟩, later⟩
    exact .cons member reached near later

instance decideLinked (width : Nat) :
    (last : Extent) → (lists : List (List Extent)) → Decidable (Linked width last lists)
  | _, [] => .isTrue .nil
  | _, _ :: lists =>
    have := fun next => decideLinked width next lists
    decidable_of_iff _ linked_cons_iff.symm

theorem Linked.occupied {last : Extent} {lists : List (List Extent)}
    (linked : Linked width last lists) : ∀ list ∈ lists, list ≠ [] := by
  induction linked with
  | nil => simp
  | cons member _ _ _ induction =>
      exact List.forall_mem_cons.mpr ⟨List.ne_nil_of_mem member, induction⟩

/-! ## The nearest extent -/

/-- Extents that start at or behind a position are not passed on the way to it. -/
theorem mem_dropWhile_of_reached {stop : Nat} {extent : Extent} {extents : List Extent}
    (member : extent ∈ extents) (reached : stop ≤ extent.start) :
    extent ∈ extents.dropWhile fun other => other.start < stop := by
  have split := @List.takeWhile_append_dropWhile _ (fun other => other.start < stop) extents
  rcases List.mem_append.mp (split ▸ member) with passed | left
  · have below := List.mem_takeWhile_imp passed
    simp only [decide_eq_true_eq] at below
    omega
  · exact left

/-! ## Following one chain -/

/-- A complete chain goes to the nearest extent of the first list and is complete from there. -/
theorem follow_step {last final : Extent} {list : List Extent} {lists : List (List Extent)}
    (complete : (follow width last (list :: lists)).1 = .complete final) :
    ∃ next rest, list.dropWhile (fun extent => extent.start < last.stop) = next :: rest ∧
      ¬width ≤ next.start - last.stop ∧ (follow width next lists).1 = .complete final := by
  rw [follow] at complete
  cases ahead : list.dropWhile fun extent => extent.start < last.stop with
  | nil =>
      rw [ahead] at complete
      cases complete
  | cons next rest =>
      rw [ahead] at complete
      dsimp only at complete
      split at complete
      · cases complete
      · rename_i close
        exact ⟨next, rest, rfl, close, complete⟩

theorem mem_dropLast_cons {list other : List Extent} {lists : List (List Extent)}
    (member : other ∈ lists.dropLast) : other ∈ (list :: lists).dropLast := by
  cases lists with
  | nil => cases member
  | cons => exact List.mem_cons_of_mem _ member

/-- Where a chain leads through some lists, following the nearest extents completes one. -/
theorem follow_complete {last : Extent} {lists : List (List Extent)}
    (wellOrdered : ∀ list ∈ lists, Extent.WellOrdered list)
    (apart : ∀ list ∈ lists.dropLast, Extent.Apart width list)
    (linked : Linked width last lists) :
    ∃ final, (follow width last lists).1 = .complete final := by
  induction lists generalizing last with
  | nil => exact ⟨last, rfl⟩
  | cons list lists induction =>
      obtain ⟨sorted, wellOrderedLater⟩ := List.forall_mem_cons.mp wellOrdered
      cases linked with
      | @cons _ chosen _ _ member reached near later =>
          have kept := mem_dropWhile_of_reached member reached
          cases ahead : list.dropWhile fun other => other.start < last.stop with
          | nil => simp [ahead] at kept
          | cons next rest =>
              rw [ahead] at kept
              have sublist := sublist_of_dropWhile ahead
              have behind := reached_of_dropWhile ahead
              have first : next.start ≤ chosen.start :=
                start_le_of_mem (sorted.sublist sublist) chosen kept
              have close : ¬width ≤ next.start - last.stop := by omega
              have linkedNext : Linked width next lists := by
                cases lists with
                | nil => exact .nil
                | cons other others =>
                    have here := apart list (by simp)
                    apply later.congr
                    exact (here next (sublist.mem (by simp)) chosen member first (by omega)).symm
              obtain ⟨final, complete⟩ := induction wellOrderedLater
                (fun other isOther => apart other (mem_dropLast_cons isOther)) linkedNext
              refine ⟨final, ?_⟩
              simp only [follow, ahead, if_neg close]
              exact complete

/-- Following a chain from one extent passes nothing that a chain from a later one needs. -/
theorem follow_keeps {last later : Extent} {lists : List (List Extent)}
    (ascending : ∀ list ∈ lists.dropLast, Extent.StopsAscend list)
    (behind : lists ≠ [] → last.stop ≤ later.stop) (linked : Linked width later lists) :
    (follow width last lists).1 ≠ .ended ∧ Linked width later (follow width last lists).2 := by
  induction lists generalizing last later with
  | nil => exact ⟨by simp [follow], .nil⟩
  | cons list lists induction =>
      cases linked with
      | @cons _ chosen _ _ member reached near linkedChosen =>
          have before := behind (List.cons_ne_nil _ _)
          have kept := mem_dropWhile_of_reached member (Nat.le_trans before reached)
          cases ahead : list.dropWhile fun other => other.start < last.stop with
          | nil => simp [ahead] at kept
          | cons next rest =>
              rw [ahead] at kept
              by_cases far : width ≤ next.start - last.stop
              · simp only [follow, ahead, if_pos far]
                exact ⟨by simp, .cons kept reached near linkedChosen⟩
              · have ordered : lists ≠ [] → next.stop ≤ chosen.stop := by
                  intro inner
                  have stops : Extent.StopsAscend (next :: rest) :=
                    (ascending list (by simp [List.dropLast_cons_of_ne_nil inner])).sublist
                      (sublist_of_dropWhile ahead)
                  rcases List.mem_cons.mp kept with rfl | inRest
                  · exact Nat.le_refl _
                  · exact (List.pairwise_cons.mp stops).1 chosen inRest
                obtain ⟨goesOn, linkedRest⟩ := induction
                  (fun other isOther => ascending other (mem_dropLast_cons isOther)) ordered
                  linkedChosen
                simp only [follow, ahead, if_neg far]
                exact ⟨goesOn, .cons kept reached near linkedRest⟩

/-- What is left behind a chain is a part of each list. -/
theorem follow_sublists (width : Nat) (last : Extent) (lists : List (List Extent)) :
    List.Forall₂ List.Sublist (follow width last lists).2 lists := by
  induction lists generalizing last with
  | nil => exact .nil
  | cons list lists induction =>
      have whole : List.Forall₂ List.Sublist lists lists :=
        List.forall₂_same.mpr fun other _ => List.Sublist.refl other
      cases ahead : list.dropWhile fun other => other.start < last.stop with
      | nil =>
          simp only [follow, ahead]
          exact .cons (List.nil_sublist _) whole
      | cons next rest =>
          have sublist := sublist_of_dropWhile ahead
          by_cases far : width ≤ next.start - last.stop
          · simp only [follow, ahead, if_pos far]
            exact .cons sublist whole
          · simp only [follow, ahead, if_neg far]
            exact .cons sublist (induction next)

/-! ## The whole search -/

/-- Lists through which the nearest extents lead along any chain.  The last list is free: it
only has to be well-ordered. -/
structure Traceable (width : Nat) (lists : List (List Extent)) : Prop where
  wellOrdered : ∀ list ∈ lists, Extent.WellOrdered list
  ascending : ∀ list ∈ lists.dropLast, Extent.StopsAscend list
  apart : ∀ list ∈ lists.dropLast, Extent.Apart width list

theorem forall₂_dropLast {parts wholes : List (List Extent)}
    (sublists : List.Forall₂ List.Sublist parts wholes) :
    List.Forall₂ List.Sublist parts.dropLast wholes.dropLast := by
  rw [List.dropLast_eq_take, List.dropLast_eq_take, sublists.length_eq]
  exact List.forall₂_take _ sublists

theorem Traceable.sublists {parts wholes : List (List Extent)}
    (traceable : Traceable width wholes)
    (sublists : List.Forall₂ List.Sublist parts wholes) : Traceable width parts := by
  constructor
  · intro part member
    obtain ⟨whole, isWhole, sublist⟩ := exists_related sublists member
    exact (traceable.wellOrdered whole isWhole).sublist sublist
  · intro part member
    obtain ⟨whole, isWhole, sublist⟩ := exists_related (forall₂_dropLast sublists) member
    exact (traceable.ascending whole isWhole).sublist sublist
  · intro part member
    obtain ⟨whole, isWhole, sublist⟩ := exists_related (forall₂_dropLast sublists) member
    exact (traceable.apart whole isWhole).sublist sublist

theorem sweepOrdered_finds {firsts : List Extent} {lists : List (List Extent)}
    (found : Array Extent) (forward : ∀ first ∈ firsts, first.start ≤ first.stop)
    (ascending : lists ≠ [] → Extent.StopsAscend firsts) (traceable : Traceable width lists)
    {first : Extent} (member : first ∈ firsts) (linked : Linked width first lists) :
    ∃ window ∈ sweepOrdered width firsts lists found, window.start = first.start := by
  induction firsts generalizing lists found with
  | nil => cases member
  | cons head firsts induction =>
      have sublists := follow_sublists width head lists
      have completes := @follow_complete width head lists traceable.wellOrdered traceable.apart
      have keeps := @follow_keeps width head first lists traceable.ascending
      rw [sweepOrdered]
      cases followed : follow width head lists with
      | mk chain rest =>
          rw [followed] at sublists completes keeps
          have traceableRest := traceable.sublists sublists
          have occupied : rest ≠ [] → lists ≠ [] := by
            rintro some rfl
            cases sublists
            exact some rfl
          have ascendingLater : rest ≠ [] → Extent.StopsAscend firsts :=
            fun some => (List.pairwise_cons.mp (ascending (occupied some))).2
          have forwardLater := (List.forall_mem_cons.mp forward).2
          rcases List.mem_cons.mp member with rfl | later
          · obtain ⟨final, rfl⟩ := completes linked
            let window : Extent := ⟨first.start, final.stop, first.start_lt, final.stop_lt⟩
            obtain ⟨windows, same, _⟩ := sweepOrdered_forward width (found.push window)
              forwardLater fun list isList => (traceableRest.wellOrdered list isList).forward
            refine ⟨window, ?_, rfl⟩
            dsimp only
            rw [same]
            simp
          · have behind : lists ≠ [] → head.stop ≤ first.stop :=
              fun some => (List.pairwise_cons.mp (ascending some)).1 first later
            obtain ⟨goesOn, linkedRest⟩ := keeps behind linked
            cases chain with
            | complete final =>
                exact induction _ forwardLater ascendingLater traceableRest later linkedRest
            | broken => exact induction _ forwardLater ascendingLater traceableRest later linkedRest
            | ended => exact absurd rfl goesOn

/-- Lists that a chain leads through are all swept. -/
theorem ordered_of_linked {firsts : List Extent} {others : List (List Extent)} {first : Extent}
    (member : first ∈ firsts) (linked : Linked width first others) :
    ordered width (firsts :: others) = (sweepOrdered width firsts others #[]).toList := by
  have occupied : (firsts :: others).any List.isEmpty = false := by
    simpa [List.ne_nil_of_mem member] using linked.occupied
  simp [ordered, occupied]

theorem ordered_ne_nil {firsts : List Extent} {others : List (List Extent)}
    (wellOrdered : Extent.WellOrdered firsts)
    (ascending : others ≠ [] → Extent.StopsAscend firsts) (traceable : Traceable width others)
    {first : Extent} (member : first ∈ firsts) (linked : Linked width first others) :
    ordered width (firsts :: others) ≠ [] := by
  obtain ⟨window, found, _⟩ :=
    sweepOrdered_finds #[] wellOrdered.forward ascending traceable member linked
  rw [ordered_of_linked member linked]
  exact List.ne_nil_of_mem found.val

/-- An ordered search finds a window for every extent from which a chain leads through the
other lists. -/
theorem ordered_finds {firsts : List Extent} {others : List (List Extent)}
    (wellOrdered : Extent.WellOrdered firsts)
    (ascending : others ≠ [] → Extent.StopsAscend firsts) (traceable : Traceable width others)
    {first : Extent} (member : first ∈ firsts) (linked : Linked width first others) :
    ∃ window ∈ ordered width (firsts :: others), window.start = first.start := by
  obtain ⟨window, found, starts⟩ :=
    sweepOrdered_finds #[] wellOrdered.forward ascending traceable member linked
  rw [ordered_of_linked member linked]
  exact ⟨window, found.val, starts⟩

/-- The widths up to one ask for adjacent extents.  Among plain occurrences they leave no
choice in the middle of a chain. -/
theorem traceable_of_points {lists : List (List Extent)} (adjacent : width ≤ 1)
    (points : ∀ list ∈ lists, ∀ extent ∈ list, extent.IsPoint)
    (sorted : ∀ list ∈ lists, list.Pairwise fun first second => first.start ≤ second.start) :
    Traceable width lists := by
  constructor
  · intro list member
    exact ⟨fun extent inside => (points list member extent inside).forward, sorted list member⟩
  · intro list inner
    have member := List.dropLast_subset _ inner
    exact Extent.stopsAscend_of_points (points list member) (sorted list member)
  · intro list inner first isFirst second isSecond before near
    have member := List.dropLast_subset _ inner
    rw [points list member first isFirst, points list member second isSecond]
    omega

/-- A phrase of three words, of which the first stands in two more places. -/
theorem ordered_finds_phrase :
    let firsts : List Extent := [.ofNats 0 1, .ofNats 5 6, .ofNats 7 8]
    let others : List (List Extent) := [[.ofNats 1 2, .ofNats 6 7], [.ofNats 3 4, .ofNats 7 8]]
    Extent.WellOrdered firsts ∧ Extent.StopsAscend firsts ∧ Traceable 1 others ∧
      Linked 1 (.ofNats 5 6) others ∧
      ∃ window ∈ ordered 1 (firsts :: others), window.start = 5 := by
  intro firsts others
  have wellOrdered : Extent.WellOrdered firsts := ⟨by decide, by decide⟩
  have ascending : Extent.StopsAscend firsts := by decide
  have traceable : Traceable 1 others :=
    traceable_of_points (Nat.le_refl _) (by decide) (by decide)
  have linked : Linked 1 (.ofNats 5 6) others := by decide
  exact ⟨wellOrdered, ascending, traceable, linked,
    ordered_finds wellOrdered (fun _ => ascending) traceable (by decide) linked⟩

/-- Of two near rivals in the middle the search follows the first, and then the last word
lies too far away. -/
theorem ordered_misses_rival :
    ¬∀ (width : Nat) (firsts : List Extent) (others : List (List Extent)),
      (∀ list ∈ firsts :: others, list ≠ [] ∧ Extent.WellOrdered list) →
      ∀ first ∈ firsts, Linked width first others →
        ∃ window ∈ ordered width (firsts :: others), window.start = first.start := by
  intro complete
  let first : Extent := .ofNats 0 1
  let others : List (List Extent) := [[.ofNats 1 2, .ofNats 3 4], [.ofNats 6 7]]
  have nothing : ordered 3 ([first] :: others) = [] := by decide
  have linked : Linked 3 first others := by decide
  obtain ⟨window, found, _⟩ := complete 3 [first] others (by decide) first (by decide) linked
  rw [nothing] at found
  cases found

/-- A long first extent leads past the only extent that can follow the short one. -/
theorem ordered_misses_nested :
    let short : Extent := .ofNats 1 2
    let firsts : List Extent := [.ofNats 0 100, short]
    let others : List (List Extent) := [[.ofNats 3 4]]
    Extent.WellOrdered firsts ∧ Traceable 5 others ∧ Linked 5 short others ∧
      ordered 5 (firsts :: others) = [] := by
  exact ⟨⟨by decide, by decide⟩, ⟨by decide, by decide, by decide⟩, by decide, by decide⟩

end Window

end Concordance
