import Concordance.Proofs.Block.Acceptance
import Concordance.Proofs.Step

/-!
# Documents that a block refuses

A builder is changed in place, and the skip entry of a full group is pushed before the document
that opens the next one.  A check behind that change would leave the entry of a group that never
begins.  No check stands there: a document is refused before the first change or not at all.  So
the documents that were refused may be left out, and the block is the same.
-/

namespace Concordance

namespace Block

/-- A document that is offered to a builder with its extents. -/
abbrev Offer := DocId × List Extent

def Offer.posting (offer : Offer) : Posting := ⟨offer.1, offer.2.length, offer.2⟩

theorem Offer.ofExtents_eq {offer : Offer} (small : offer.2.length < 4294967296) :
    Posting.ofExtents offer.1 offer.2 = offer.posting := by
  unfold Posting.ofExtents storedCount Offer.posting
  rw [Nat.mod_eq_of_lt small]

namespace Builder

/-- Add a document to a block in place.  The group is closed first, and it stays
closed if the document cannot be put behind the last one. -/
def extend (doc : DocId) (extents : List Extent) : Step Builder Unit := do
  let builder ← get
  Step.ofExcept (builder.check doc extents)
  let grouped := builder.openGroup
  set grouped
  let docs ← Step.ofExcept (grouped.docs.push doc)
  set
    { grouped with
      docs := docs
      counts := grouped.counts ++ Varint.encode (storedCount extents)
      extents := pushExtents 0 extents grouped.extents
      summary := grouped.summary.add extents.length }

theorem extend_run {builder after : Builder} {doc : DocId} {extents : List Extent}
    (added : builder.add doc extents = .ok after) : extend doc extents builder = .ok () after := by
  obtain ⟨_, checked, later⟩ := Step.ok_of_bind added
  obtain ⟨docs, pushed, same⟩ := Step.ok_of_bind later
  cases same
  unfold extend
  rw [Step.bind_ok _ (Step.get_run builder), Step.bind_ok _ (Step.ofExcept_run checked builder),
    Step.bind_ok _ (Step.set_run builder _), Step.bind_ok _ (Step.ofExcept_run pushed _)]
  rfl

theorem extend_refused {builder : Builder} {doc : DocId} {extents : List Extent} {cause : Error}
    (refused : builder.check doc extents = .error cause) :
    extend doc extents builder = .error cause builder := by
  unfold extend
  rw [Step.bind_ok _ (Step.get_run builder),
    Step.bind_error _ (Step.ofExcept_error refused builder)]

theorem openGroup_docs (builder : Builder) : builder.openGroup.docs = builder.docs := by
  unfold openGroup
  cases builder.lastDoc with
  | none => rfl
  | some last =>
      dsimp only
      split <;> rfl

/-- Behind the check nothing is refused: closing a group does not touch the documents. -/
theorem add_of_follows {builder : Builder} {doc : DocId} {extents : List Extent}
    (follows : Follows builder.lastDoc doc extents) :
    ∃ after, builder.add doc extents = .ok after := by
  have pushed := GapList.push_above builder.openGroup.docs
    (fun last ending => follows.above last (by rwa [openGroup_docs] at ending))
  unfold add
  rw [check_follows follows, Step.ok_bind]
  dsimp only
  rw [pushed]
  exact ⟨_, rfl⟩

/-- A document that comes next is added, and any other one is refused and leaves the builder as it
is. -/
theorem extend_cases (builder : Builder) (doc : DocId) (extents : List Extent) :
    (Follows builder.lastDoc doc extents ∧
      ∃ after, builder.add doc extents = .ok after ∧ extend doc extents builder = .ok () after) ∨
    ¬Follows builder.lastDoc doc extents ∧
      ∃ cause, cause.kind = .invalidArgument ∧ builder.add doc extents = .error cause ∧
        extend doc extents builder = .error cause builder := by
  rcases check_cases builder doc extents with ⟨_, follows⟩ | ⟨cause, refused, kind, outside⟩
  · obtain ⟨after, added⟩ := add_of_follows follows
    exact .inl ⟨follows, after, added, extend_run added⟩
  · exact .inr ⟨outside, cause, kind, add_refused refused, extend_refused refused⟩

/-- Adding in place ends like adding to a copy. -/
theorem extend_eq_add (builder : Builder) (doc : DocId) (extents : List Extent) :
    extend doc extents builder =
      match builder.add doc extents with
      | .ok after => .ok () after
      | .error cause => .error cause builder := by
  rcases extend_cases builder doc extents with ⟨_, after, added, run⟩ | ⟨_, cause, _, refused, run⟩
  · rw [added, run]
  · rw [refused, run]

/-! ## Offers one after the other -/

/-- Offer documents one after the other, whatever becomes of each: how the offers end, and the
builder that is left. -/
def attempt : List Offer → Builder → List (Except Error Unit) × Builder
  | [], builder => ([], builder)
  | offer :: offers, builder =>
    match extend offer.1 offer.2 builder with
    | .ok _ after =>
      let (ends, last) := attempt offers after
      (.ok () :: ends, last)
    | .error cause after =>
      let (ends, last) := attempt offers after
      (.error cause :: ends, last)

/-- The offers that were taken. -/
def accepted : List Offer → List (Except Error Unit) → List Offer
  | offer :: offers, .ok _ :: ends => offer :: accepted offers ends
  | _ :: offers, .error _ :: ends => accepted offers ends
  | _, _ => []

variable {builder after : Builder} {offer : Offer} {offers : List Offer} {cause : Error}

theorem attempt_ok (run : extend offer.1 offer.2 builder = .ok () after) :
    attempt (offer :: offers) builder =
      (.ok () :: (attempt offers after).1, (attempt offers after).2) := by
  rw [attempt, run]

theorem attempt_error (run : extend offer.1 offer.2 builder = .error cause after) :
    attempt (offer :: offers) builder =
      (.error cause :: (attempt offers after).1, (attempt offers after).2) := by
  rw [attempt, run]

theorem attempt_append (front back : List Offer) (builder : Builder) :
    attempt (front ++ back) builder =
      ((attempt front builder).1 ++ (attempt back (attempt front builder).2).1,
        (attempt back (attempt front builder).2).2) := by
  induction front generalizing builder with
  | nil => rfl
  | cons offer front induction =>
      rw [List.cons_append]
      cases run : extend offer.1 offer.2 builder with
      | ok _ after =>
          rw [attempt_ok run, attempt_ok run, induction]
          rfl
      | error cause after =>
          rw [attempt_error run, attempt_error run, induction]
          rfl

/-- The offers that were taken are all taken without the others, and lead to the same builder. -/
theorem attempt_accepted (offers : List Offer) (builder : Builder) :
    let taken := accepted offers (attempt offers builder).1
    attempt taken builder = (taken.map fun _ => .ok (), (attempt offers builder).2) := by
  induction offers generalizing builder with
  | nil => rfl
  | cons offer offers induction =>
      rcases extend_cases builder offer.1 offer.2 with
        ⟨_, after, _, run⟩ | ⟨_, cause, _, _, run⟩
      · have later := induction after
        simp only [attempt_ok run, accepted, List.map_cons] at later ⊢
        rw [later]
      · -- The later offers meet the builder that the refused one met.
        simpa only [attempt_error run, accepted] using induction builder

/-! ## The postings of a builder -/

/-- What a builder holds behind an offer, if it is taken. -/
theorem extend_of (interval : Nat) (postings : List Posting) (offer : Offer) :
    (Follows (lastDoc? postings) offer.1 offer.2 ∧
      extend offer.1 offer.2 (of interval postings) =
        .ok () (of interval (postings ++ [offer.posting]))) ∨
    ¬Follows (lastDoc? postings) offer.1 offer.2 ∧
      ∃ cause, cause.kind = .invalidArgument ∧
        extend offer.1 offer.2 (of interval postings) = .error cause (of interval postings) := by
  rcases extend_cases (of interval postings) offer.1 offer.2 with
    ⟨follows, _⟩ | ⟨outside, cause, kind, _, run⟩
  · have added := @add_of interval postings offer.posting follows
    exact .inl ⟨follows, extend_run added⟩
  · exact .inr ⟨outside, cause, kind, run⟩

/-- The builder that is left holds the postings of the offers that were taken. -/
theorem attempt_of (interval : Nat) (postings : List Posting) (offers : List Offer) :
    let (ends, builder) := attempt offers (of interval postings)
    builder = of interval (postings ++ (accepted offers ends).map Offer.posting) ∧
      Extends postings ((accepted offers ends).map Offer.posting) := by
  induction offers generalizing postings with
  | nil => exact ⟨by simp [accepted], extends_nil⟩
  | cons offer offers induction =>
      rcases extend_of interval postings offer with ⟨follows, run⟩ | ⟨_, cause, _, run⟩
      · obtain ⟨holds, extending⟩ := induction (postings ++ [offer.posting])
        simp only [attempt_ok run, accepted, List.map_cons]
        exact ⟨by simpa using holds, extends_cons.mpr ⟨rfl, follows, extending⟩⟩
      · simpa only [attempt_error run, accepted] using induction postings

theorem attempt_new (interval : Nat) (offers : List Offer) :
    let (ends, builder) := attempt offers (new interval)
    let postings := (accepted offers ends).map Offer.posting
    builder = of (max interval 1) postings ∧ Encodable postings := by
  obtain ⟨holds, extending⟩ := attempt_of (max interval 1) [] offers
  rw [← new_eq_of] at holds extending
  exact ⟨holds, extending.encodable⟩

theorem lastDoc?_offers (offers : List Offer) :
    lastDoc? (offers.map Offer.posting) = offers.getLast?.map Prod.fst := by
  simp only [lastDoc?, docsOf, List.map_map, List.getLast?_map]
  rfl

theorem follows_iff {ending : Option Offer} {doc : DocId} {extents : List Extent} :
    Follows (ending.map Prod.fst) doc extents ↔
      extents ≠ [] ∧ Extent.WellOrdered extents ∧ ∀ last ∈ ending, last.1 < doc := by
  constructor
  · rintro ⟨above, occurs, ordered⟩
    exact ⟨occurs, ordered, fun last known => above last.1 (known ▸ rfl)⟩
  · rintro ⟨occurs, ordered, above⟩
    refine ⟨fun last known => ?_, occurs, ordered⟩
    obtain ⟨offer, same, rfl⟩ := Option.map_eq_some_iff.mp known
    exact above offer same

/-- Behind any offers, adding in place ends like adding to a copy.  It succeeds if the extents are
non-empty and well-ordered and the document lies above the last one taken.  Otherwise it is refused
as an argument, the builder is as before, and so is the end of every later offer.  Without the
offers that were refused the builder is the same, and its block is that of the postings that were
taken. -/
theorem attempt_untouched (interval : Nat) (offers : List Offer) :
    let ends := (attempt offers (new interval)).1
    let builder := (attempt offers (new interval)).2
    let taken := accepted offers ends
    (∀ doc extents, extend doc extents builder =
      match builder.add doc extents with
      | .ok after => .ok () after
      | .error cause => .error cause builder) ∧
    (∀ doc extents, (∃ after, extend doc extents builder = .ok () after) ↔
      extents ≠ [] ∧ Extent.WellOrdered extents ∧ ∀ last ∈ taken.getLast?, last.1 < doc) ∧
    (∀ doc extents cause after, extend doc extents builder = .error cause after →
      cause.kind = .invalidArgument ∧ after = builder ∧
      ∀ later, ∃ laterEnds last,
        attempt (offers ++ later) (new interval) = (ends ++ laterEnds, last) ∧
        attempt (offers ++ (doc, extents) :: later) (new interval) =
          (ends ++ .error cause :: laterEnds, last)) ∧
    attempt taken (new interval) = (taken.map fun _ => .ok (), builder) ∧
    ((∀ offer ∈ taken, offer.2.length < 4294967296) →
      encode (taken.map fun offer => Posting.ofExtents offer.1 offer.2) interval =
        .ok builder.finish) := by
  intro ends builder taken
  obtain ⟨holds, encodable⟩ : builder = of (max interval 1) (taken.map Offer.posting) ∧
    Encodable (taken.map Offer.posting) := attempt_new interval offers
  have ending : builder.lastDoc = taken.getLast?.map Prod.fst := by
    rw [holds, ← lastDoc?_offers]
    rfl
  refine ⟨extend_eq_add builder, ?_, ?_, attempt_accepted offers (new interval), ?_⟩
  · intro doc extents
    rw [← follows_iff, ← ending]
    rcases extend_cases builder doc extents with
      ⟨follows, after, _, run⟩ | ⟨outside, cause, _, _, run⟩
    · exact ⟨fun _ => follows, fun _ => ⟨after, run⟩⟩
    · refine ⟨?_, fun follows => absurd follows outside⟩
      rintro ⟨after, same⟩
      cases run.symm.trans same
  · intro doc extents cause after refused
    rcases extend_cases builder doc extents with ⟨_, _, _, run⟩ | ⟨_, other, kind, _, run⟩
    · cases run.symm.trans refused
    · cases run.symm.trans refused
      refine ⟨kind, rfl, fun later => ?_⟩
      refine ⟨(attempt later builder).1, (attempt later builder).2, attempt_append _ _ _, ?_⟩
      have beside : attempt ((doc, extents) :: later) builder =
          (.error cause :: (attempt later builder).1, (attempt later builder).2) :=
        attempt_error run
      rw [attempt_append, beside]
  · intro small
    rw [List.map_congr_left fun offer member => Offer.ofExtents_eq (small offer member)]
    rcases encode_cases (taken.map Offer.posting) interval with ⟨done, _⟩ | ⟨_, _, _, outside⟩
    · rw [done, holds]
      rfl
    · exact absurd encodable outside

/-- Groups of one document, so that every offer stands at the start of a group.  Between two that
are taken, one is refused for its document, one for having no extents, and one for their order. -/
theorem attempt_untouched_groups :
    let first : Offer := (.ofNat 3, [.ofNats 0 1])
    let again : Offer := (.ofNat 3, [.ofNats 4 5])
    let blank : Offer := (.ofNat 5, [])
    let disordered : Offer := (.ofNat 7, [.ofNats 2 3, .ofNats 1 2])
    let last : Offer := (.ofNat 9, [.ofNats 1 2, .ofNats 1 1])
    let left := attempt [first, again, blank, disordered, last] (new 1)
    left.1 = [.ok (), .error (.docNotAfter (.ofNat 3) (.ofNat 3)),
      .error (.noOccurrences (.ofNat 5)), .error (.extentsNotOrdered (.ofNat 7)), .ok ()] ∧
    attempt [first, last] (new 1) = ([.ok (), .ok ()], left.2) ∧
    encode [⟨.ofNat 3, 1, first.2⟩, ⟨.ofNat 9, 2, last.2⟩] 1 = .ok left.2.finish := by
  intro first again blank disordered last left
  have ends : left.1 = [.ok (), .error (.docNotAfter (.ofNat 3) (.ofNat 3)),
      .error (.noOccurrences (.ofNat 5)), .error (.extentsNotOrdered (.ofNat 7)), .ok ()] := by cbv
  obtain ⟨_, _, _, alone, block⟩ :=
    attempt_untouched 1 [first, again, blank, disordered, last]
  have taken : accepted [first, again, blank, disordered, last] left.1 = [first, last] := by
    rw [ends]
    rfl
  rw [taken] at alone block
  exact ⟨ends, alone, block (by decide)⟩

end Builder

end Block

end Concordance
