import Concordance.Proofs.Block.Acceptance
import Concordance.Proofs.Query.Meaning

/-!
# Sound matches

What a query finds in a document can be handed to a parent: a count that is
offered is not zero, and extents that are offered are well-ordered and as many
as the count says.  Each combination keeps this up over children that offer
what it needs.
-/

namespace Concordance

/-- A match that shows what it offers. -/
structure Match.Sound (offered : Capabilities) (found : Match) : Prop where
  occurs : offered.count = true → 0 < found.count
  counted : offered.extents = true → found.count = found.extents.length
  ordered : offered.extents = true → Extent.WellOrdered found.extents

/-- A query whose matches are all sound. -/
structure Meaning.Sound (meaning : Meaning) : Prop where
  counts : meaning.capabilities.extents = true → meaning.capabilities.count = true
  place : ∀ doc found, meaning.found doc = some found → found.doc = doc
  sound : ∀ doc found, meaning.found doc = some found → found.Sound meaning.capabilities

/-- Whether the extents of all matches can be counted in 32 bits. -/
def Meaning.Countable (meaning : Meaning) : Prop :=
  ∀ doc found, meaning.found doc = some found → found.extents.length < 4294967296

namespace Meaning

theorem absent_sound : absent.Sound :=
  ⟨fun _ => rfl, fun _ _ impossible => (nomatch impossible),
    fun _ _ impossible => (nomatch impossible)⟩

theorem feature_sound {child : Meaning} (sound : child.Sound) : child.feature.Sound :=
  ⟨fun impossible => (nomatch impossible), sound.place,
    fun _ _ _ => ⟨fun impossible => (nomatch impossible), fun impossible => (nomatch impossible),
      fun impossible => (nomatch impossible)⟩⟩

theorem source_eq_some {postings : List Posting} {withExtents : Bool} {doc : DocId}
    {found : Match} (same : (source postings withExtents).found doc = some found) :
    ∃ posting ∈ postings, posting.doc = doc ∧
      found = ⟨posting.doc, posting.count, if withExtents then posting.extents else []⟩ := by
  obtain ⟨posting, first, rfl⟩ := Option.map_eq_some_iff.mp same
  have here := List.find?_some first
  exact ⟨posting, List.mem_of_find?_eq_some first, by simpa using here, rfl⟩

theorem source_sound {postings : List Posting}
    (wellFormed : ∀ posting ∈ postings, posting.WellFormed) (withExtents : Bool) :
    (source postings withExtents).Sound := by
  refine ⟨?_, ?_, ?_⟩
  · intro reads
    cases withExtents with
    | false => cases reads
    | true => rfl
  · intro doc found same
    obtain ⟨posting, _, rfl, rfl⟩ := source_eq_some same
    rfl
  · intro doc found same
    obtain ⟨posting, member, rfl, rfl⟩ := source_eq_some same
    have kept := wellFormed posting member
    have some? := List.length_pos_iff.mpr kept.occurs
    refine ⟨fun _ => ?_, ?_, ?_⟩
    · dsimp only
      rw [kept.counted]
      exact some?
    · intro reads
      cases withExtents with
      | false => cases reads
      | true => exact kept.counted
    · intro reads
      cases withExtents with
      | false => cases reads
      | true => exact kept.ordered

theorem Sound.extents_ne_nil {meaning : Meaning} (sound : meaning.Sound) {doc : DocId}
    {found : Match} (same : meaning.found doc = some found)
    (offered : meaning.capabilities.extents = true) : found.extents ≠ [] := by
  have kept := sound.sound doc found same
  have occurs := kept.occurs (sound.counts offered)
  rw [kept.counted offered] at occurs
  exact List.length_pos_iff.mp occurs

end Meaning

/-! ## Combinations -/

theorem Extent.atMost_iff {first second : Extent} :
    Extent.atMost first second = true ↔
      first.start < second.start ∨ first.start = second.start ∧ first.stop ≤ second.stop := by
  simp only [Extent.atMost, Bool.or_eq_true, Bool.and_eq_true, decide_eq_true_eq, beq_iff_eq]

theorem Extent.atMost_antisymm (first second : Extent) (below : Extent.atMost first second = true)
    (above : Extent.atMost second first = true) : first = second := by
  obtain ⟨start, stop, _, _⟩ := first
  obtain ⟨otherStart, otherStop, _, _⟩ := second
  simp only [Extent.atMost_iff] at below above
  simp only [Extent.mk.injEq]
  constructor
  · omega
  · omega

theorem Extent.sort_ascending (extents : List Extent) :
    (Extent.sort extents).Pairwise fun first second => Extent.atMost first second = true := by
  apply List.pairwise_mergeSort
  · intro first second third
    simp only [Extent.atMost_iff]
    omega
  · intro first second
    simp only [Bool.or_eq_true, Extent.atMost_iff]
    omega

theorem Extent.mem_merged {extent : Extent} {extents : List Extent} :
    extent ∈ (Extent.sort extents).eraseReps ↔ extent ∈ extents := by
  rw [mem_eraseReps, Extent.sort, List.mem_mergeSort]

/-- The same extents in ascending order, each once, are well-ordered. -/
theorem Extent.merged_wellOrdered {extents : List Extent}
    (forward : ∀ extent ∈ extents, extent.start ≤ extent.stop) :
    Extent.WellOrdered (Extent.sort extents).eraseReps := by
  constructor
  · intro extent member
    exact forward extent (Extent.mem_merged.mp member)
  · apply (pairwise_eraseReps Extent.atMost_antisymm (Extent.sort_ascending extents)).imp
    intro first second below
    have atMost := Extent.atMost_iff.mp below.1
    omega

theorem Capabilities.covers_count {offered needed : Capabilities}
    (covers : offered.covers needed = true) (needs : needed.count = true) :
    offered.count = true := by
  simp only [Capabilities.covers, needs, Bool.and_eq_true] at covers
  simpa using covers.1.1.1

theorem Capabilities.covers_extents {offered needed : Capabilities}
    (covers : offered.covers needed = true) (needs : needed.extents = true) :
    offered.extents = true := by
  simp only [Capabilities.covers, needs, Bool.and_eq_true] at covers
  simpa using covers.1.1.2

namespace Combination

variable {combination : Combination} {children : List Meaning} {doc : DocId} {found : Match}

theorem mem_present (member : found ∈ present children doc) :
    ∃ child ∈ children, child.found doc = some found := List.mem_filterMap.mp member

theorem present_sound (sound : ∀ child ∈ children, child.Sound)
    (offered : ∀ child ∈ children, child.capabilities.covers combination.needs = true) :
    ∀ found ∈ present children doc,
      (combination.needs.count = true → 0 < found.count) ∧
      (combination.needs.extents = true →
        found.extents ≠ [] ∧ Extent.WellOrdered found.extents) := by
  intro found member
  obtain ⟨child, isChild, same⟩ := mem_present member
  have kept := (sound child isChild).sound doc found same
  constructor
  · intro needs
    exact kept.occurs (Capabilities.covers_count (offered child isChild) needs)
  · intro needs
    have offers := Capabilities.covers_extents (offered child isChild) needs
    exact ⟨(sound child isChild).extents_ne_nil same offers, kept.ordered offers⟩

theorem present_wellOrdered (sound : ∀ child ∈ children, child.Sound)
    (offered : ∀ child ∈ children, child.capabilities.covers combination.needs = true)
    (needs : combination.needs.extents = true) :
    ∀ list ∈ (present children doc).map Match.extents, Extent.WellOrdered list := by
  intro list member
  obtain ⟨found, isPresent, rfl⟩ := List.mem_map.mp member
  exact ((present_sound sound offered found isPresent).2 needs).2

/-- A combination that matches has found something of the form it makes. -/
theorem found_cases (same : (combination.meaning children).found doc = some found) :
    found.doc = doc ∧
      match combination with
      | .conjunction => allPresent children doc = true ∧ found = ⟨doc, 1, []⟩
      | .union => present children doc ≠ [] ∧
          found = ⟨doc, min Forest.maxCount ((present children doc).map Match.count).sum, []⟩
      | .combine => present children doc ≠ [] ∧ found = ⟨doc, 0, []⟩
      | .synonym => present children doc ≠ [] ∧ ∃ extents,
          extents = (Extent.sort ((present children doc).flatMap Match.extents)).eraseReps ∧
          found = ⟨doc, extents.length, extents⟩
      | .window order width => allPresent children doc = true ∧ ∃ windows,
          windows = (Window.find order width
            ((present children doc).map Match.extents)).toOption.getD [] ∧
          windows ≠ [] ∧ found = ⟨doc, windows.length, windows⟩ := by
  change combination.found children doc = some found at same
  cases combination <;>
    simp only [Combination.found, Option.ite_none_right_eq_some, Option.ite_none_left_eq_some,
      Option.some.injEq, List.isEmpty_iff, Bool.and_eq_true, Bool.not_eq_true',
      List.isEmpty_eq_false_iff] at same <;>
    obtain ⟨occupied, rfl⟩ := same
  · exact ⟨rfl, occupied, rfl⟩
  · exact ⟨rfl, occupied, rfl⟩
  · exact ⟨rfl, occupied, rfl⟩
  · exact ⟨rfl, occupied, _, rfl, rfl⟩
  · exact ⟨rfl, occupied.1, _, rfl, occupied.2, rfl⟩

theorem sum_counts_pos {matches? : List Match} (occupied : matches? ≠ [])
    (occurs : ∀ found ∈ matches?, 0 < found.count) : 0 < (matches?.map Match.count).sum := by
  cases matches? with
  | nil => exact absurd rfl occupied
  | cons first later =>
      have here := occurs first List.mem_cons_self
      simp only [List.map_cons, List.sum_cons]
      omega

/-- Synonyms show the extents of all children together, of which there are some. -/
theorem merged_sound
    (shown : ∀ found ∈ present children doc,
      found.extents ≠ [] ∧ Extent.WellOrdered found.extents)
    (occupied : present children doc ≠ []) :
    let extents := (Extent.sort ((present children doc).flatMap Match.extents)).eraseReps
    0 < extents.length ∧ Extent.WellOrdered extents := by
  intro extents
  constructor
  · obtain ⟨first, _, here⟩ := List.exists_cons_of_ne_nil occupied
    have isPresent : first ∈ present children doc := here ▸ List.mem_cons_self
    obtain ⟨extent, _, known⟩ := List.exists_cons_of_ne_nil (shown first isPresent).1
    have kept : extent ∈ extents := by
      refine Extent.mem_merged.mpr (List.mem_flatMap.mpr ⟨first, isPresent, ?_⟩)
      rw [known]
      exact List.mem_cons_self
    exact List.length_pos_of_mem kept
  · apply Extent.merged_wellOrdered
    intro extent member
    obtain ⟨found, isPresent, inside⟩ := List.mem_flatMap.mp member
    exact (shown found isPresent).2.forward extent inside

/-- A combination that shows extents counts them. -/
theorem counts_of_extents (offers : combination.capabilities.extents = true) :
    combination.capabilities.count = true := by
  cases combination <;> first | rfl | cases offers

/-- A combination over sound children that offer what it needs is sound. -/
theorem meaning_sound (sound : ∀ child ∈ children, child.Sound)
    (offered : ∀ child ∈ children, child.capabilities.covers combination.needs = true) :
    (combination.meaning children).Sound := by
  refine ⟨counts_of_extents, fun doc found same => (found_cases same).1, ?_⟩
  intro doc found same
  have made := found_cases same
  have handed := @present_sound combination children doc sound offered
  cases combination with
  | conjunction =>
      obtain ⟨_, _, rfl⟩ := made
      exact ⟨fun _ => Nat.one_pos, fun impossible => (nomatch impossible),
        fun impossible => (nomatch impossible)⟩
  | union =>
      obtain ⟨_, occupied, rfl⟩ := made
      have counts := sum_counts_pos occupied fun found member => (handed found member).1 rfl
      refine ⟨fun _ => ?_, fun impossible => (nomatch impossible),
        fun impossible => (nomatch impossible)⟩
      simp only [Forest.maxCount]
      omega
  | combine =>
      exact ⟨fun impossible => (nomatch impossible), fun impossible => (nomatch impossible),
        fun impossible => (nomatch impossible)⟩
  | synonym =>
      obtain ⟨_, occupied, extents, merged, rfl⟩ := made
      obtain ⟨occurs, ordered⟩ :=
        merged_sound (fun found member => (handed found member).2 rfl) occupied
      rw [← merged] at occurs ordered
      exact ⟨fun _ => occurs, fun _ => rfl, fun _ => ordered⟩
  | window order width =>
      obtain ⟨_, _, windows, searched, occupied, rfl⟩ := made
      refine ⟨fun _ => List.length_pos_iff.mpr occupied, fun _ => rfl, fun _ => ?_⟩
      obtain ⟨ordered, same, wellOrderedWindows⟩ :=
        Window.find_ok order width (present_wellOrdered sound offered rfl)
      rw [searched, same]
      exact wellOrderedWindows

end Combination

end Concordance
