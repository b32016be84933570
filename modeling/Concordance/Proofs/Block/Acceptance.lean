import Concordance.Proofs.Block.Image

/-!
# Which lists of postings have a block

A list of postings is encoded exactly when its documents ascend and each
posting is well-formed.  The builder finds out posting by posting, so the
condition is cut into what the next posting has to meet and what is left for
the later ones.
-/

namespace Concordance

/-- A posting whose count is that of its extents, which occurs at least once and
whose extents are well-ordered. -/
structure Posting.WellFormed (posting : Posting) : Prop where
  counted : posting.count = posting.extents.length
  occurs : posting.extents ≠ []
  ordered : Extent.WellOrdered posting.extents

namespace Block

/-- Postings whose documents ascend. -/
def Ascending (postings : List Posting) : Prop :=
  postings.Pairwise fun first second => first.doc < second.doc

theorem Ascending.middle {front back : List Posting} {posting : Posting}
    (ascending : Ascending (front ++ posting :: back)) :
    ∀ last, lastDoc? front = some last → last < posting.doc := by
  intro last ends
  obtain ⟨_, _, across⟩ := List.pairwise_append.mp ascending
  obtain ⟨ending, member, rfl⟩ := List.mem_map.mp (List.mem_of_getLast? ends)
  exact across ending member posting List.mem_cons_self

/-- Postings that have a block. -/
structure Encodable (postings : List Posting) : Prop where
  ascending : Ascending postings
  wellFormed : ∀ posting ∈ postings, posting.WellFormed

/-- The block of some postings. -/
def image (interval : Nat) (postings : List Posting) : List UInt8 :=
  (Builder.of interval postings).finish

/-- Postings that can follow others in one block. -/
structure Extends (front back : List Posting) : Prop where
  above : ∀ last, lastDoc? front = some last → ∀ posting ∈ back, last < posting.doc
  encodable : Encodable back

theorem extends_nil {front : List Posting} : Extends front [] := by
  refine ⟨?_, List.Pairwise.nil, ?_⟩
  · intro last ends posting absent
    cases absent
  · intro posting absent
    cases absent

theorem encodable_of_extends_nil {postings : List Posting} :
    Extends [] postings ↔ Encodable postings := by
  constructor
  · exact Extends.encodable
  · intro encodable
    refine ⟨?_, encodable⟩
    intro last absent
    cases absent

theorem extends_cons {front back : List Posting} {posting : Posting} :
    Extends front (posting :: back) ↔
      posting.count = posting.extents.length ∧
        Builder.Follows (lastDoc? front) posting.doc posting.extents ∧
        Extends (front ++ [posting]) back := by
  constructor
  · rintro ⟨above, ascending, wellFormed⟩
    obtain ⟨first, rest⟩ := List.pairwise_cons.mp ascending
    have head := wellFormed posting List.mem_cons_self
    refine ⟨head.counted, ⟨?_, head.occurs, head.ordered⟩, ?_, rest, ?_⟩
    · intro last ends
      exact above last ends posting List.mem_cons_self
    · intro last ends later member
      rw [lastDoc?_concat] at ends
      cases ends
      exact first later member
    · intro later member
      exact wellFormed later (List.mem_cons_of_mem _ member)
  · rintro ⟨counted, follows, above, ascending, wellFormed⟩
    have behind : ∀ later ∈ back, posting.doc < later.doc :=
      above posting.doc (lastDoc?_concat front posting)
    refine ⟨?_, List.pairwise_cons.mpr ⟨behind, ascending⟩, ?_⟩
    · intro last ends later member
      have less := follows.above last ends
      rcases List.mem_cons.mp member with rfl | member
      · exact less
      · exact Nat.lt_trans less (behind later member)
    · intro later member
      rcases List.mem_cons.mp member with rfl | member
      · exact ⟨counted, follows.occurs, follows.ordered⟩
      · exact wellFormed later member

theorem Builder.add_refused {builder : Builder} {doc : DocId} {extents : List Extent}
    {cause : Error} (refused : builder.check doc extents = .error cause) :
    builder.add doc extents = .error cause := by
  unfold Builder.add
  rw [refused]
  rfl

theorem addPosting_cases (interval : Nat) (front : List Posting) (posting : Posting) :
    (addPosting (Builder.of interval front) posting =
        .ok (Builder.of interval (front ++ [posting])) ∧
      posting.count = posting.extents.length ∧
      Builder.Follows (lastDoc? front) posting.doc posting.extents) ∨
    ∃ cause, addPosting (Builder.of interval front) posting = .error cause ∧
      cause.kind = .invalidArgument ∧
      ¬(posting.count = posting.extents.length ∧
        Builder.Follows (lastDoc? front) posting.doc posting.extents) := by
  unfold addPosting
  by_cases counted : posting.count = posting.extents.length
  · rw [if_pos counted]
    rcases Builder.check_cases (Builder.of interval front) posting.doc posting.extents with
      ⟨_, follows⟩ | ⟨cause, refused, kind, outside⟩
    · exact .inl ⟨Builder.add_of follows, counted, follows⟩
    · exact .inr ⟨cause, Builder.add_refused refused, kind, fun both => outside both.2⟩
  · rw [if_neg counted]
    exact .inr ⟨_, rfl, rfl, fun both => counted both.1⟩

/-- A whole list is taken, or one of its postings is refused. -/
theorem addPostings_cases (interval : Nat) (front back : List Posting) :
    (back.foldlM addPosting (Builder.of interval front) =
        .ok (Builder.of interval (front ++ back)) ∧ Extends front back) ∨
    ∃ cause, back.foldlM addPosting (Builder.of interval front) = .error cause ∧
      cause.kind = .invalidArgument ∧ ¬Extends front back := by
  induction back generalizing front with
  | nil => exact .inl ⟨by simp [pure, Except.pure], extends_nil⟩
  | cons posting back induction =>
      rw [List.foldlM_cons]
      rcases addPosting_cases interval front posting with
        ⟨added, counted, follows⟩ | ⟨cause, refused, kind, outside⟩
      · rw [added]
        have later := induction (front ++ [posting])
        rw [List.append_assoc, List.singleton_append] at later
        rcases later with ⟨taken, extending⟩ | ⟨cause, refused, kind, outside⟩
        · exact .inl ⟨taken, extends_cons.mpr ⟨counted, follows, extending⟩⟩
        · refine .inr ⟨cause, refused, kind, ?_⟩
          intro extending
          exact outside (extends_cons.mp extending).2.2
      · refine .inr ⟨cause, ?_, kind, ?_⟩
        · rw [refused]
          rfl
        · intro extending
          have parts := extends_cons.mp extending
          exact outside ⟨parts.1, parts.2.1⟩

/-- A list of postings has its block, or it is refused as an argument out of
order. -/
theorem encode_cases (postings : List Posting) (interval : Nat) :
    (encode postings interval = .ok (image (max interval 1) postings) ∧ Encodable postings) ∨
    ∃ cause, encode postings interval = .error cause ∧ cause.kind = .invalidArgument ∧
      ¬Encodable postings := by
  unfold encode
  rw [Builder.new_eq_of]
  rcases addPostings_cases (max interval 1) [] postings with
    ⟨taken, extending⟩ | ⟨cause, refused, kind, outside⟩
  · rw [taken]
    exact .inl ⟨rfl, extending.encodable⟩
  · rw [refused]
    exact .inr ⟨cause, rfl, kind, fun encodable =>
      outside (encodable_of_extends_nil.mpr encodable)⟩

end Block

end Concordance
