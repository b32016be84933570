import Concordance.Proofs.Cursor.Conserved
import Concordance.Proofs.Query.Soundness

/-!
# Extents that can be searched

Windows are found in one pass over the extents of the children, so every list that a cursor shows
has to be in order.  Leaves over the blocks of a writer show such lists, and a search over lists
that are in order finds windows in order.  Since a combination looks at its children only where
they show something, this holds of a whole forest however its cursors are called, whoever shares
them and whether the calls succeed or not.
-/

namespace Concordance

/-! ## What a combination shows -/

namespace Extent

/-- Each extent stands behind the one before it, by its start and then by its stop. -/
def Strict (extents : List Extent) : Prop :=
  extents.Pairwise fun first second =>
    first.start < second.start ∨ first.start = second.start ∧ first.stop < second.stop

/-- The same extents in ascending order, each once, ascend strictly. -/
theorem merged_strict (extents : List Extent) : Strict (sort extents).eraseReps := by
  apply (pairwise_eraseReps atMost_antisymm (sort_ascending extents)).imp
  rintro first second ⟨below, different⟩
  have order := atMost_iff.mp below
  by_cases above : atMost second first = true
  · exact absurd (atMost_antisymm first second below above) different
  · rw [atMost_iff] at above
    omega

end Extent

/-- A match whose extents a parent can search. -/
structure Match.Usable (combination : Combination) (found : Match) : Prop where
  occurs : found.extents ≠ []
  ordered : Extent.WellOrdered found.extents
  counted : found.extents.length < 4294967296 → found.count = found.extents.length
  strict : combination = .synonym → Extent.Strict found.extents

theorem Forest.matchOf_usable {combination : Combination} {doc : DocId} {extents : List Extent}
    {found : Match} (ordered : Extent.WellOrdered extents)
    (strict : combination = .synonym → Extent.Strict extents)
    (made : matchOf doc extents = some found) : found.Usable combination := by
  unfold matchOf at made
  obtain ⟨occupied, same⟩ := Option.ite_none_left_eq_some.mp made
  cases same
  exact ⟨by simpa using occupied, ordered, fun bound => Nat.mod_eq_of_lt bound, strict⟩

/-! ## Cursors and forests -/

/-- A cursor whose extents a parent can search, wherever it stands. -/
def Cursor.Usable : Cursor → Prop
  | .null _ | .feature _ => True
  | .leaf source => ∃ floor, Leaf.Stored floor source
  | .composite parent =>
    parent.combination.capabilities.extents = true →
      ∀ found, parent.current = some found → found.Usable parent.combination

/-- What a cursor makes of its children, if it is a combination. -/
def Cursor.combination? : Cursor → Option Combination
  | .composite parent => some parent.combination
  | .null _ | .leaf _ | .feature _ => none

namespace Leaf

variable {floor : Nat} {leaf : Leaf}

theorem Stored.counted (stored : Stored floor leaf) (running : leaf.reader.isDone = false)
    (reads : leaf.reader.withExtents = true) :
    leaf.reader.count = leaf.reader.extents.length :=
  (stored.1.coherent.shown running reads).1.symm

theorem extents_eq_ok {extents : List Extent} (shown : leaf.extents = .ok extents) :
    leaf.reader.withExtents = true ∧ leaf.reader.isDone = false ∧
      extents = leaf.reader.extents := by
  unfold Leaf.extents at shown
  cases reads : leaf.reader.withExtents with
  | false =>
      rw [reads] at shown
      cases shown
  | true =>
      cases running : leaf.reader.isDone with
      | true =>
          rw [reads, running] at shown
          cases shown
      | false =>
          rw [reads, running] at shown
          cases shown
          exact ⟨rfl, rfl, rfl⟩

/-- A leaf stays one over the block of a writer, whatever it is asked for. -/
theorem Becomes.stored {after : Leaf} (becomes : leaf.Becomes after)
    (stored : Stored floor leaf) : ∃ floor, Stored floor after := by
  cases becomes with
  | ended => exact ⟨_, stored.exhaust⟩
  | moved target =>
      by_cases below : target.val < floor
      · -- The leaf may refuse, or it may be asked for less than it stands on.
        exact ⟨floor, Law.stored_rests floor leaf target stored below⟩
      · have moves := stored.moves (Nat.not_lt.mp below)
        obtain ⟨_, after, run, there, _⟩ := moves.exists_ok fun _ => id
        rw [Step.endState_ok run]
        exact ⟨_, there⟩

end Leaf

namespace Forest

/-- All cursors show extents that a parent can search. -/
def Usable (forest : Forest) : Prop := ∀ handle, (forest.cursor handle).Usable

variable {forest : Forest}

theorem usable_empty : empty.Usable := by
  intro handle
  have vacant : empty.cursor handle = .null "" := by simp [Forest.cursor, empty]
  rw [vacant]
  trivial

/-- Where a cursor shows extents, they are in order. -/
theorem Usable.wellOrdered (usable : forest.Usable) {handle : Handle} {extents : List Extent}
    (shown : forest.extents handle = .ok extents) : Extent.WellOrdered extents := by
  have here := usable handle
  unfold Forest.extents at shown
  cases known : forest.cursor handle with
  | null key =>
      rw [known] at shown
      cases shown
  | feature wrapper =>
      rw [known] at shown
      cases shown
  | leaf leaf =>
      rw [known] at here shown
      obtain ⟨_, stored⟩ := here
      obtain ⟨reads, running, rfl⟩ := Leaf.extents_eq_ok shown
      exact (stored.1.shown running reads).2.1
  | composite composite =>
      rw [known] at here shown
      change composite.extents = .ok extents at shown
      unfold Composite.extents at shown
      cases offers : composite.combination.capabilities.extents with
      | false =>
          rw [offers] at shown
          cases shown
      | true =>
          rw [offers] at shown
          cases current : composite.current with
          | none =>
              rw [current] at shown
              cases shown
          | some found =>
              rw [current] at shown
              cases shown
              exact (here offers found current).ordered

/-- What a combination finds over cursors that can be searched can be searched in turn. -/
theorem Usable.matchAt (usable : forest.Usable) {combination : Combination}
    (offers : combination.capabilities.extents = true) {children : List Handle} {doc : DocId}
    {found : Match} (looked : forest.matchAt combination children doc = .ok (some found)) :
    found.Usable combination := by
  unfold Forest.matchAt at looked
  cases combination with
  | conjunction => cases offers
  | union => cases offers
  | combine => cases offers
  | synonym =>
      obtain ⟨lists, read, made⟩ := Step.ok_of_bind looked
      refine matchOf_usable (Extent.merged_wellOrdered ?_) (fun _ => Extent.merged_strict _)
        (Except.ok.inj made)
      intro extent member
      obtain ⟨list, isList, inside⟩ := List.mem_flatten.mp member
      obtain ⟨child, _, shown⟩ := Step.exists_of_mem_mapM read isList
      exact (usable.wellOrdered shown).forward extent inside
  | window order width =>
      obtain ⟨lists, read, found?⟩ := Step.ok_of_bind looked
      obtain ⟨windows, searched, made⟩ := Step.ok_of_bind found?
      have ordered : ∀ list ∈ lists, Extent.WellOrdered list := by
        intro list isList
        obtain ⟨child, _, shown⟩ := Step.exists_of_mem_mapM read isList
        -- A child that stands elsewhere takes part with no extents.
        by_cases here : forest.hasMatch child doc = true
        · rw [if_pos here] at shown
          exact usable.wellOrdered shown
        · rw [if_neg here] at shown
          cases shown
          exact ⟨by simp, .nil⟩
      obtain ⟨_, same, kept⟩ := Window.find_ok order width ordered
      rw [searched] at same
      cases same
      exact matchOf_usable kept (fun impossible => nomatch impossible) (Except.ok.inj made)

/-- A combination that takes what it finds over its children can be searched. -/
theorem Usable.makes (usable : forest.Usable) {composite : Composite} {next : Option Match}
    (made : forest.Makes composite.combination composite.children next) :
    (Cursor.composite { composite with current := next }).Usable := by
  intro offers found shown
  obtain ⟨_, looked⟩ := made found shown
  exact usable.matchAt offers looked

theorem Usable.put (usable : forest.Usable) {cursor : Cursor} (fits : cursor.Usable)
    (handle : Handle) : (forest.put handle cursor).Usable := by
  intro other
  rcases cursor_put_cases forest handle cursor other with same | same
  · rw [same]
    exact usable other
  · rw [same]
    exact fits

/-- A forest of cursors that can be searched stays one. -/
def StaysUsable (before after : Forest) : Prop := before.Usable → after.Usable

/-- Calls leave cursors that can be searched, even where they fail. -/
theorem StaysUsable.conserved : Conserved StaysUsable where
  refl _ := id
  trans _ _ _ first second usable := second (first usable)
  leaf forest handle before after here becomes usable := by
    have known := usable handle
    rw [here] at known
    obtain ⟨_, stored⟩ := known
    have fits : (Cursor.leaf after).Usable := becomes.stored stored
    exact usable.put fits handle
  composite _ _ handle _ _ _ kept made usable := (kept usable).put ((kept usable).makes made) handle

/-- What a forest of cursors that can be searched shows in the document on which a cursor stands:
extents in order, as many as are counted, and those of a synonym each once. -/
theorem Usable.shows (usable : forest.Usable) {handle : Handle}
    (offers : (forest.capabilities handle).extents = true)
    (running : forest.isDone handle = false) :
    ∃ extents, forest.extents handle = .ok extents ∧ extents ≠ [] ∧
      Extent.WellOrdered extents ∧
      (extents.length < 4294967296 → forest.count handle = .ok extents.length) ∧
      ((forest.cursor handle).combination? = some .synonym → Extent.Strict extents) := by
  have here := usable handle
  unfold Forest.capabilities at offers
  cases known : forest.cursor handle with
  | null key =>
      rw [isDone, position_null known] at running
      cases running
  | feature wrapper =>
      rw [known] at offers
      cases offers
  | leaf leaf =>
      rw [known] at here offers
      rw [isDone_leaf known] at running
      obtain ⟨_, stored⟩ := here
      have reads := leaf.capabilities_extents ▸ offers
      obtain ⟨some?, ordered, _⟩ := stored.1.shown running reads
      obtain ⟨count, extents⟩ := shows_leaf known running
      rw [stored.counted running reads] at count
      refine ⟨_, extents offers, some?, ordered, fun _ => count, ?_⟩
      intro impossible
      cases impossible
  | composite composite =>
      rw [known] at here offers
      have shows := shows_composite known
      rw [isDone, shows.position, Option.isNone_map] at running
      obtain ⟨found, current⟩ :=
        Option.isSome_iff_exists.mp (Option.isNone_eq_false_iff.mp running)
      have kept := here offers found current
      refine ⟨found.extents, shows.extents found current offers, kept.occurs, kept.ordered, ?_, ?_⟩
      · intro bound
        rw [← kept.counted bound]
        exact shows.count found current (Combination.counts_of_extents offers)
      · intro synonym
        exact kept.strict (Option.some.inj synonym)

end Forest

end Concordance
