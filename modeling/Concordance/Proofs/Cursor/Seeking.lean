import Concordance.Proofs.Cursor.Matching

/-!
# Seeking a match

A combination locates a document that can match, looks at what its children
show there, and goes on behind it if they do not match together.  What it ends
on is the first match of its meaning.
-/

namespace Concordance

namespace Combination

/-- Whether enough children match for a combination to match. -/
def Possible (combination : Combination) (children : List Meaning) (doc : DocId) : Prop :=
  if combination.needsAll then ∀ child ∈ children, child.found doc ≠ none
  else ∃ child ∈ children, child.found doc ≠ none

theorem possible_of_found {combination : Combination} {children : List Meaning} {doc : DocId}
    {found : Match} (same : (combination.meaning children).found doc = some found) :
    combination.Possible children doc := by
  have all : allPresent children doc = true → ∀ child ∈ children, child.found doc ≠ none := by
    intro present child member absent
    have shown := List.all_eq_true.mp present child member
    rw [absent] at shown
    cases shown
  have some? : present children doc ≠ [] → ∃ child ∈ children, child.found doc ≠ none := by
    intro occupied
    obtain ⟨first, later, here⟩ := List.exists_cons_of_ne_nil occupied
    have member : first ∈ present children doc := here ▸ List.mem_cons_self
    obtain ⟨child, isChild, shown⟩ := mem_present member
    exact ⟨child, isChild, by rw [shown]; exact Option.some_ne_none first⟩
  have made := (found_cases same).2
  cases combination with
  | conjunction => exact all made.1
  | union => exact some? made.1
  | combine => exact some? made.1
  | synonym => exact some? made.1
  | window order width => exact all made.1

theorem found_eq_none {combination : Combination} {children : List Meaning} {doc : DocId}
    (refused : ¬combination.Possible children doc) :
    (combination.meaning children).found doc = none := by
  apply Option.eq_none_iff_forall_ne_some.mpr
  intro found same
  exact refused (possible_of_found same)

end Combination

namespace Forest

variable {move : Move} {children : List Handle} {meanings : Handle → Meaning}
  {stands : Handle → Nat → Forest → Prop} {frame : Forest → Forest → Prop}

/-- The next document that a combination has to look at: the first at or behind a
target where it can match, with all children moved there. -/
inductive Located (combination : Combination) (children : List Handle)
    (meanings : Handle → Meaning) (stands : Handle → Nat → Forest → Prop) (target : DocId)
    (forest : Forest) : Option DocId → Prop where
  | nowhere (refused : ∀ doc : DocId, target ≤ doc →
      ¬combination.Possible (children.map meanings) doc) :
      Located combination children meanings stands target forest none
  | somewhere (doc : DocId) (behind : target ≤ doc)
      (standing : ∀ child ∈ children, stands child doc.val forest)
      (refused : ∀ earlier : DocId, target ≤ earlier → earlier < doc →
        ¬combination.Possible (children.map meanings) earlier) :
      Located combination children meanings stands target forest (some doc)

theorem not_possible_all {combination : Combination} (needsAll : combination.needsAll = true)
    {doc : DocId} (refused : ∃ child ∈ children, (meanings child).found doc = none) :
    ¬combination.Possible (children.map meanings) doc := by
  obtain ⟨child, member, absent⟩ := refused
  unfold Combination.Possible
  rw [if_pos needsAll]
  intro all
  exact all (meanings child) (List.mem_map_of_mem member) absent

theorem not_possible_any {combination : Combination} (needsAny : combination.needsAll = false)
    {doc : DocId} (refused : ∀ child ∈ children, (meanings child).found doc = none) :
    ¬combination.Possible (children.map meanings) doc := by
  unfold Combination.Possible
  rw [needsAny, if_neg Bool.false_ne_true]
  rintro ⟨meaning, member, present⟩
  obtain ⟨child, isChild, rfl⟩ := List.mem_map.mp member
  exact present (refused child isChild)

theorem locate_guided (guided : Guided move children meanings stands frame)
    (combination : Combination) {target : DocId} {forest : Forest}
    (ready : Ready children stands target.val forest) :
    ∃ found after, locate move combination children target forest = .ok found after ∧
      frame forest after ∧
      Located combination children meanings stands target after found := by
  unfold locate
  cases needs : combination.needsAll with
  | true =>
      obtain ⟨found, after, run, framed, aligned⟩ := align_guided guided ready
      refine ⟨found, after, run, framed, ?_⟩
      cases aligned with
      | apart refused =>
          exact .nowhere fun doc behind => not_possible_all needs (refused doc behind)
      | together doc behind standing shown refused =>
          exact .somewhere doc behind standing fun earlier behind below =>
            not_possible_all needs (refused earlier behind below)
  | false =>
      obtain ⟨after, moved, framed, standing⟩ := moveAll_stands guided ready
      rw [if_neg Bool.false_ne_true, Step.bind_ok _ moved, Step.bind_ok _ (Step.get_run _)]
      refine ⟨after.least children, after, rfl, framed, ?_⟩
      rcases least_cases after children with ⟨none, done⟩ | ⟨doc, found, ⟨source, isSource, place⟩, least⟩
      · rw [none]
        refine .nowhere fun doc behind => not_possible_any needs fun child member => ?_
        exact absent_of_done guided member (standing child member) (done child member) behind
      · rw [found]
        have behind := floor_le_position guided isSource (standing source isSource) place
        refine .somewhere doc behind ?_ ?_
        · intro child member
          exact guided.raise child member _ _ after (standing child member) behind
            (least child member)
        · intro earlier behind below
          apply not_possible_any needs
          intro child member
          cases shown : after.position child with
          | none => exact absent_of_done guided member (standing child member) shown behind
          | some other =>
              exact absent_of_below guided member (standing child member) shown behind
                (Nat.lt_of_lt_of_le below (least child member other shown))

/-! ## One round of seeking -/

section Round

variable {combination : Combination} {target doc next : DocId} {forest middle : Forest}

theorem seek_nowhere
    (located : locate move combination children target forest = .ok none middle) :
    seek move combination children target forest = .ok none middle := by
  rw [seek, Step.bind_ok _ located]
  rfl

theorem seek_here {found : Match}
    (located : locate move combination children target forest = .ok (some doc) middle)
    (looked : middle.matchAt combination children doc = .ok (some found)) :
    seek move combination children target forest = .ok (some found) middle := by
  rw [seek, Step.bind_ok _ located]
  dsimp only
  rw [Step.bind_ok _ (Step.get_run _), Step.bind_ok _ (Step.ofExcept_run looked _)]
  rfl

theorem seek_last
    (located : locate move combination children target forest = .ok (some doc) middle)
    (looked : middle.matchAt combination children doc = .ok none) (last : doc.next? = none) :
    seek move combination children target forest = .ok none middle := by
  rw [seek, Step.bind_ok _ located]
  dsimp only
  rw [Step.bind_ok _ (Step.get_run _), Step.bind_ok _ (Step.ofExcept_run looked _), last]
  rfl

theorem seek_on
    (located : locate move combination children target forest = .ok (some doc) middle)
    (looked : middle.matchAt combination children doc = .ok none) (ahead : doc.next? = some next)
    (further : target < next) :
    seek move combination children target forest = seek move combination children next middle := by
  rw [seek, Step.bind_ok _ located]
  dsimp only
  rw [Step.bind_ok _ (Step.get_run _), Step.bind_ok _ (Step.ofExcept_run looked _), ahead]
  dsimp only
  rw [if_pos further]

end Round

/-! ## Seeking -/

/-- What a combination makes of its children in each document from a position on, as soon as
they stand there. -/
structure Sees (combination : Combination) (children : List Handle)
    (meanings : Handle → Meaning) (stands : Handle → Nat → Forest → Prop) (base : Nat)
    (found : DocId → Option Match) : Prop where
  looks : ∀ (doc : DocId) (forest : Forest), base ≤ doc.val →
    (∀ child ∈ children, stands child doc.val forest) →
    forest.matchAt combination children doc = .ok (found doc)
  place : ∀ (doc : DocId) (here : Match), base ≤ doc.val → found doc = some here → here.doc = doc
  absent : ∀ doc : DocId, base ≤ doc.val →
    ¬combination.Possible (children.map meanings) doc → found doc = none

/-- Nothing is found up to a document that was looked at in vain. -/
theorem Sees.absent_through {combination : Combination} {base : Nat}
    {found : DocId → Option Match} (sees : Sees combination children meanings stands base found)
    {target doc : DocId} (above : base ≤ target.val)
    (refused : ∀ earlier : DocId, target ≤ earlier → earlier < doc →
      ¬combination.Possible (children.map meanings) earlier)
    (here : found doc = none) {later : DocId} (reached : target.val ≤ later.val)
    (below : later ≤ doc) : found later = none := by
  rcases Nat.lt_or_eq_of_le below with less | same
  · exact sees.absent later (Nat.le_trans above reached) (refused later reached less)
  · rw [DocId.eq_of_val_eq same]
    exact here

/-- Seeking ends on the first match that a combination makes of its children. -/
theorem seek_first (guided : Guided move children meanings stands frame)
    {combination : Combination} {base : Nat} {found : DocId → Option Match}
    (sees : Sees combination children meanings stands base found)
    {target : DocId} (above : base ≤ target.val) {forest : Forest}
    (ready : Ready children stands target.val forest) :
    ∃ next after, seek move combination children target forest = .ok next after ∧
      frame forest after ∧ First found target.val next ∧
      ∀ current, next = some current → ∀ child ∈ children,
        stands child current.doc.val after := by
  -- Each round looks at a later document, so there are fewer left above it.
  induction measure : target.above using Nat.strongRecOn generalizing target forest with
  | ind left induction =>
      obtain ⟨located, middle, run, framed, known⟩ := locate_guided guided combination ready
      cases known with
      | nowhere refused =>
          refine ⟨none, middle, seek_nowhere run, framed, .nowhere ?_, ?_⟩
          · intro doc behind
            exact sees.absent doc (Nat.le_trans above behind) (refused doc behind)
          · intro current impossible
            cases impossible
      | somewhere doc behind standing refused =>
          have higher := Nat.le_trans above behind
          have looked := sees.looks doc middle higher standing
          cases here : found doc with
          | some current =>
              have place := sees.place doc current higher here
              rw [here] at looked
              refine ⟨some current, middle, seek_here run looked, framed, ?_, ?_⟩
              · subst place
                exact .somewhere current behind here fun earlier reached below =>
                  sees.absent earlier (Nat.le_trans above reached) (refused earlier reached below)
              · rintro other same child member
                cases same
                rw [place]
                exact standing child member
          | none =>
              rw [here] at looked
              cases ahead : doc.next? with
              | none =>
                  refine ⟨none, middle, seek_last run looked ahead, framed, .nowhere ?_, ?_⟩
                  · intro later reached
                    apply sees.absent_through above refused here reached
                    have bound := later.val_lt
                    rw [DocId.next?_eq_none.mp ahead]
                    simp only [DocId.le_iff, DocId.top]
                    omega
                  · intro current impossible
                    cases impossible
              | some next =>
                  have step := DocId.next?_eq_some.mp ahead
                  have further : target < next := by
                    have reached := DocId.le_iff.mp behind
                    rw [DocId.lt_iff]
                    omega
                  have readyNext : Ready children stands next.val middle :=
                    fun child member => ⟨doc.val, by omega, standing child member⟩
                  obtain ⟨current, after, rest, framedRest, first, standingAfter⟩ :=
                    induction next.above (measure ▸ DocId.above_lt_above further)
                      (Nat.le_trans above (Nat.le_of_lt further)) readyNext rfl
                  refine ⟨current, after, (seek_on run looked ahead further).trans rest,
                    guided.trans _ _ _ framed framedRest, ?_, standingAfter⟩
                  refine first.lower ?_ (Nat.le_of_lt further)
                  intro later reached below
                  apply sees.absent_through above refused here reached
                  rw [DocId.le_iff]
                  omega

/-- Seeking ends on the first match of the combination. -/
theorem seek_guided (guided : Guided move children meanings stands frame)
    {combination : Combination} (sound : ∀ child ∈ children, (meanings child).Sound)
    (offered : ∀ child ∈ children,
      (meanings child).capabilities.covers combination.needs = true)
    (countable : (combination.meaning (children.map meanings)).Countable)
    {target : DocId} {forest : Forest} (ready : Ready children stands target.val forest) :
    ∃ next after, seek move combination children target forest = .ok next after ∧
      frame forest after ∧
      First (combination.meaning (children.map meanings)).found target.val next ∧
      ∀ found, next = some found → ∀ child ∈ children, stands child found.doc.val after := by
  have soundWhole : (combination.meaning (children.map meanings)).Sound :=
    Combination.meaning_sound (List.forall_mem_map.mpr sound) (List.forall_mem_map.mpr offered)
  have sees : Sees combination children meanings stands 0
      (combination.meaning (children.map meanings)).found :=
    ⟨fun doc _ _ standing => matchAt_guided guided standing sound offered countable,
      fun doc here _ => soundWhole.place doc here,
      fun doc _ => Combination.found_eq_none⟩
  exact seek_first guided sees (Nat.zero_le _) ready

end Forest

end Concordance
