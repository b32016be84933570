import Concordance.Proofs.Window.Chain

/-!
# Choices of extents

An unordered search asks for a choice: one extent of each list, all of them within the
width.  Each window it keeps is the stretch of some choice.  Where the ends ascend as the starts
do, the heads lie inside any near choice at the latest when the first extent of it is due, so
that a window is found inside the choice.
-/

namespace Concordance

namespace Window

variable {width : Nat}

/-- One extent of each of several lists. -/
abbrev Choice (chosen : List Extent) (lists : List (List Extent)) : Prop :=
  List.Forall₂ (fun extent list => extent ∈ list) chosen lists

/-- Some choice spans at most the width, from its least start to its greatest end. -/
def Fits (width : Nat) (lists : List (List Extent)) : Prop :=
  ∃ chosen whole, Choice chosen lists ∧ Covers whole chosen ∧ whole.stop - whole.start ≤ width

theorem Choice.wholes {chosen : List Extent} {parts wholes : List (List Extent)}
    (choice : Choice chosen parts) (sublists : List.Forall₂ List.Sublist parts wholes) :
    Choice chosen wholes := by
  induction choice generalizing wholes with
  | nil =>
      cases sublists
      exact .nil
  | cons member _ induction =>
      cases sublists with
      | cons here later => exact .cons (here.mem member) (induction later)

theorem Choice.exists_chosen {chosen : List Extent} {lists : List (List Extent)}
    (choice : Choice chosen lists) {list : List Extent} (member : list ∈ lists) :
    ∃ extent ∈ chosen, extent ∈ list :=
  @exists_related _ _ (fun list extent => extent ∈ list) _ _ choice.flip _ member

theorem choice_heads {lists : List (List Extent)} (occupied : ∀ list ∈ lists, list ≠ []) :
    Choice (heads lists) lists := by
  induction lists with
  | nil => exact .nil
  | cons list lists induction =>
      obtain ⟨here, later⟩ := List.forall_mem_cons.mp occupied
      cases list with
      | nil => exact absurd rfl here
      | cons head rest => exact .cons List.mem_cons_self (induction later)

theorem not_fits_nil : ¬Fits width [] := by
  rintro ⟨_, _, choice, covers, _⟩
  cases choice
  obtain ⟨extent, impossible, _⟩ := covers.starts
  cases impossible

/-! ## The round -/

/-- A round drops an extent of a choice only if one starts where the round does. -/
theorem Choice.dropStart {chosen : List Extent} {lists : List (List Extent)} {start : Nat}
    (choice : Choice chosen lists) (behind : ∀ extent ∈ chosen, extent.start ≠ start) :
    Choice chosen (dropStart start lists) := by
  induction choice with
  | nil => exact .nil
  | @cons extent list _ _ member later induction =>
      obtain ⟨here, behindLater⟩ := List.forall_mem_cons.mp behind
      cases list with
      | nil => cases member
      | cons head rest =>
          rw [Window.dropStart]
          by_cases found : head.start = start
          · rw [if_pos found]
            rcases List.mem_cons.mp member with rfl | inside
            · exact absurd found here
            · exact .cons inside later
          · rw [if_neg found]
            exact .cons member (induction behindLater)

/-! ## The whole search -/

/-- Each window is the stretch of a choice. -/
theorem Rounds.choice {lists : List (List Extent)} {windows : List Extent}
    (rounds : Rounds width lists windows) {window : Extent} (found : window ∈ windows) :
    (∃ chosen, Choice chosen lists ∧ Covers window chosen) ∧
      window.start ≤ window.stop ∧ window.stop - window.start ≤ width := by
  induction rounds with
  | ended => cases found
  | again occupied covers forward _ induction =>
      rcases List.mem_append.mp found with here | later
      · obtain ⟨rfl, narrow⟩ := mem_fitting.mp here
        exact ⟨⟨_, choice_heads occupied, covers⟩, forward, narrow⟩
      · obtain ⟨⟨chosen, choice, spans⟩, bounds⟩ := induction later
        exact ⟨⟨chosen, choice.wholes (dropStart_sublists _ _), spans⟩, bounds⟩

/-- Where the ends ascend, no choice ends before the heads do. -/
theorem Choice.heads_stop_le {chosen : List Extent} {lists : List (List Extent)}
    {span whole : Extent} (choice : Choice chosen lists) (spans : Covers span chosen)
    (ascending : ∀ list ∈ lists, Extent.StopsAscend list) (covers : Covers whole (heads lists)) :
    whole.stop ≤ span.stop := by
  obtain ⟨last, isLast, stops⟩ := covers.stops
  obtain ⟨list, member, head⟩ := List.mem_filterMap.mp isLast
  obtain ⟨rest, rfl⟩ := List.head?_eq_some_iff.mp head
  obtain ⟨chosenThere, isChosen, inside⟩ := choice.exists_chosen member
  have later : last.stop ≤ chosenThere.stop := by
    rcases List.mem_cons.mp inside with rfl | inRest
    · exact Nat.le_refl _
    · exact (List.pairwise_cons.mp (ascending _ member)).1 chosenThere inRest
  rw [stops]
  exact later.trans (spans.beyond chosenThere isChosen)

/-- Where the ends ascend, a window is found inside each choice that is near enough. -/
theorem Rounds.inside {lists : List (List Extent)} {windows : List Extent}
    (rounds : Rounds width lists windows) {chosen : List Extent} {span : Extent}
    (choice : Choice chosen lists) (spans : Covers span chosen)
    (narrow : span.stop - span.start ≤ width)
    (ascending : ∀ list ∈ lists, Extent.StopsAscend list) :
    ∃ window ∈ windows, span.start ≤ window.start ∧ window.stop ≤ span.stop := by
  induction rounds with
  | ended missing =>
      obtain ⟨extent, _, impossible⟩ := choice.exists_chosen missing
      cases impossible
  | @again lists windows whole _ covers _ _ induction =>
      by_cases due : ∃ extent ∈ chosen, extent.start = whole.start
      · -- The heads start no earlier than the choice and end no later.
        obtain ⟨extent, isChosen, starts⟩ := due
        have behind := spans.before extent isChosen
        have before := choice.heads_stop_le spans ascending covers
        have near : whole.stop - whole.start ≤ width := by omega
        refine ⟨whole, List.mem_append_left _ (mem_fitting.mpr ⟨rfl, near⟩), ?_, before⟩
        omega
      · have kept := choice.dropStart fun extent isChosen starts =>
          due ⟨extent, isChosen, starts⟩
        obtain ⟨window, found, within⟩ := induction kept fun list member => by
          obtain ⟨source, isSource, part⟩ :=
            exists_related (dropStart_sublists whole.start lists) member
          exact (ascending source isSource).sublist part
        exact ⟨window, List.mem_append_right _ found, within⟩

/-- Over well-ordered lists an unordered search succeeds.  It finds windows only where there
is a choice, and wherever there is one if the ends ascend too. -/
theorem unordered_finds (width : Nat) {lists : List (List Extent)}
    (wellOrdered : ∀ list ∈ lists, Extent.WellOrdered list) :
    ∃ windows, unordered width lists = .ok windows ∧ (windows ≠ [] → Fits width lists) ∧
      ((∀ list ∈ lists, Extent.StopsAscend list) → Fits width lists → windows ≠ []) := by
  by_cases present : lists = []
  · subst present
    exact ⟨[], rfl, fun some => absurd rfl some, fun _ fits => absurd fits not_fits_nil⟩
  · obtain ⟨windows, found, rounds⟩ := unordered_rounds width present
      fun list member => (wellOrdered list member).forward
    refine ⟨windows, found, ?_, ?_⟩
    · intro some
      obtain ⟨window, others, rfl⟩ := List.exists_cons_of_ne_nil some
      obtain ⟨⟨chosen, choice, spans⟩, _, narrow⟩ := rounds.choice List.mem_cons_self
      exact ⟨chosen, window, choice, spans, narrow⟩
    · rintro ascending ⟨chosen, span, choice, spans, narrow⟩
      obtain ⟨window, member, _⟩ := rounds.inside choice spans narrow ascending
      exact List.ne_nil_of_mem member

/-- An unordered search over extents that are the right way round succeeds, its windows are
stretches of choices that are near enough, and where the ends ascend there is one of them
inside every such choice. -/
theorem unordered_choices (width : Nat) {lists : List (List Extent)} (present : lists ≠ [])
    (forward : Forward lists) :
    ∃ windows, unordered width lists = .ok windows ∧ Rounds width lists windows ∧
      (∀ window ∈ windows, (∃ chosen, Choice chosen lists ∧ Covers window chosen) ∧
        window.start ≤ window.stop ∧ window.stop - window.start ≤ width) ∧
      ((∀ list ∈ lists, Extent.StopsAscend list) → ∀ chosen span, Choice chosen lists →
        Covers span chosen → span.stop - span.start ≤ width →
        ∃ window ∈ windows, span.start ≤ window.start ∧ window.stop ≤ span.stop) := by
  obtain ⟨windows, found, rounds⟩ := unordered_rounds width present forward
  refine ⟨windows, found, rounds, fun _ member => rounds.choice member, ?_⟩
  intro ascending chosen span choice spans narrow
  exact rounds.inside choice spans narrow ascending

/-- Two words stand together, one of them also at the last position, where its extent is
empty. -/
theorem unordered_choices_last :
    let last : Extent := .ofNats 4294967295 4294967295
    let lists : List (List Extent) := [[.ofNats 4 5, last], [.ofNats 3 4, .ofNats 4 5]]
    lists ≠ [] ∧ Forward lists ∧ (∀ list ∈ lists, Extent.StopsAscend list) ∧
      Choice [.ofNats 4 5, .ofNats 3 4] lists ∧
      ∃ windows, unordered 2 lists = .ok windows ∧
        (∀ window ∈ windows, window.stop - window.start ≤ 2) ∧
        ∃ window ∈ windows, 3 ≤ window.start ∧ window.stop ≤ 5 := by
  intro last lists
  have present : lists ≠ [] := List.cons_ne_nil _ _
  have forward : Forward lists := by
    unfold Forward
    decide
  have ascending : ∀ list ∈ lists, Extent.StopsAscend list := by decide
  have choice : Choice [.ofNats 4 5, .ofNats 3 4] lists :=
    .cons (by decide) (.cons (by decide) .nil)
  have spans : Covers (.ofNats 3 5) [.ofNats 4 5, .ofNats 3 4] :=
    ⟨by decide, by decide, by decide, by decide⟩
  obtain ⟨windows, found, _, sound, complete⟩ := unordered_choices 2 present forward
  refine ⟨present, forward, ascending, choice, windows, found, ?_, ?_⟩
  · exact fun window member => (sound window member).2.2
  · exact complete ascending _ _ choice spans (by decide)

end Window

end Concordance
