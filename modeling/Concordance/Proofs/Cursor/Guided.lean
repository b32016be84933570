import Concordance.Proofs.Cursor.Positions
import Concordance.Proofs.Query.Soundness
import Concordance.Proofs.Step

/-!
# Moving children

A combination knows its children by a contract only: each of them stands on its
first match at or behind a position, and moving one to a later position leaves
the others where they are.  Moving all of them in turns then ends on the first
document that they can match together.
-/

namespace Concordance

/-- The first match at or behind a position, if there is one. -/
inductive First (found : DocId → Option Match) (floor : Nat) : Option Match → Prop where
  | nowhere (absent : ∀ doc : DocId, floor ≤ doc.val → found doc = none) : First found floor none
  | somewhere (current : Match) (behind : floor ≤ current.doc.val)
      (here : found current.doc = some current)
      (before : ∀ doc : DocId, floor ≤ doc.val → doc < current.doc → found doc = none) :
      First found floor (some current)

namespace First

variable {found : DocId → Option Match} {floor : Nat} {current : Option Match}

/-- A first match stays the first behind any position that it does not lie below. -/
theorem raise (first : First found floor current) {higher : Nat} (above : floor ≤ higher)
    (reached : ∀ doc, current.map Match.doc = some doc → higher ≤ doc.val) :
    First found higher current := by
  cases first with
  | nowhere absent => exact .nowhere fun doc behind => absent doc (Nat.le_trans above behind)
  | somewhere current behind here before =>
      exact .somewhere current (reached current.doc rfl) here
        fun doc behind => before doc (Nat.le_trans above behind)

/-- A first match is the first behind an earlier position too, if nothing is found
in between. -/
theorem lower {lower : Nat} (first : First found floor current)
    (absent : ∀ doc : DocId, lower ≤ doc.val → doc.val < floor → found doc = none)
    (below : lower ≤ floor) : First found lower current := by
  cases first with
  | nowhere later =>
      refine .nowhere fun doc behind => ?_
      by_cases before : doc.val < floor
      · exact absent doc behind before
      · exact later doc (Nat.not_lt.mp before)
  | somewhere current behind here before =>
      refine .somewhere current (Nat.le_trans below behind) here fun doc reached less => ?_
      by_cases early : doc.val < floor
      · exact absent doc reached early
      · exact before doc (Nat.not_lt.mp early) less

/-- Below the first match, or anywhere if there is none, nothing is found. -/
theorem absent_below (first : First found floor current) {doc : DocId} (behind : floor ≤ doc.val)
    (below : ∀ other, current.map Match.doc = some other → doc < other) : found doc = none := by
  cases first with
  | nowhere absent => exact absent doc behind
  | somewhere current _ _ before => exact before doc behind (below current.doc rfl)

theorem floor_le (first : First found floor current) {doc : DocId}
    (shown : current.map Match.doc = some doc) : floor ≤ doc.val := by
  cases first with
  | nowhere absent => cases shown
  | somewhere current behind here before =>
      cases shown
      exact behind

/-- The first match at or behind a document is in that document, or the document
has none. -/
theorem found_cases {doc : DocId} (first : First found doc.val current) :
    (∃ here, current = some here ∧ here.doc = doc ∧ found doc = some here) ∨
      (current.map Match.doc ≠ some doc ∧ found doc = none) := by
  by_cases shown : current.map Match.doc = some doc
  · cases first with
    | nowhere absent => cases shown
    | somewhere current _ here _ =>
        cases shown
        exact .inl ⟨current, rfl, rfl, here⟩
  · refine .inr ⟨shown, first.absent_below (Nat.le_refl _) ?_⟩
    intro other same
    have behind := first.floor_le same
    apply Nat.lt_of_le_of_ne behind
    intro equal
    exact shown (same.trans (congrArg some (DocId.eq_of_val_eq equal.symm)))

theorem unique {one other : Option Match} (first : First found floor one)
    (second : First found floor other) : one = other := by
  cases first with
  | nowhere absent =>
      cases second with
      | nowhere _ => rfl
      | somewhere current behind here _ =>
          rw [absent current.doc behind] at here
          cases here
  | somewhere current behind here before =>
      cases second with
      | nowhere absent =>
          rw [absent current.doc behind] at here
          cases here
      | somewhere rival rivalBehind rivalHere rivalBefore =>
          have notAbove : ¬current.doc < rival.doc := fun less => by
            rw [rivalBefore current.doc behind less] at here
            cases here
          have notBelow : ¬rival.doc < current.doc := fun less => by
            rw [before rival.doc rivalBehind less] at rivalHere
            cases rivalHere
          have same : current.doc = rival.doc :=
            DocId.eq_of_val_eq (Nat.le_antisymm (Nat.not_lt.mp notBelow) (Nat.not_lt.mp notAbove))
          rw [← same, here] at rivalHere
          exact rivalHere

theorem some_parts {current : Match} (first : First found floor (some current)) :
    floor ≤ current.doc.val ∧ found current.doc = some current ∧
      ∀ doc : DocId, floor ≤ doc.val → doc < current.doc → found doc = none := by
  cases first with
  | somewhere _ behind here before => exact ⟨behind, here, before⟩

end First

namespace Forest

/-- A cursor shows a match as far as it offers it, or it is done. -/
structure Shows (offered : Capabilities) (current : Option Match) (handle : Handle)
    (forest : Forest) : Prop where
  capabilities : forest.capabilities handle = offered
  position : forest.position handle = current.map Match.doc
  count : ∀ found, current = some found → offered.count = true →
    forest.count handle = .ok found.count
  extents : ∀ found, current = some found → offered.extents = true →
    forest.extents handle = .ok found.extents

/-- A cursor on its first match at or behind a document stands on the document exactly if
it matches. -/
theorem Shows.hasMatch_eq {offered : Capabilities} {found : DocId → Option Match}
    {current : Option Match} {handle : Handle} {forest : Forest} {doc : DocId}
    (shows : Shows offered current handle forest) (first : First found doc.val current) :
    forest.hasMatch handle doc = (found doc).isSome := by
  unfold hasMatch
  rw [shows.position]
  rcases first.found_cases with ⟨here, same, place, known⟩ | ⟨elsewhere, absent⟩
  · simp [same, place, known]
  · simpa [absent] using elsewhere

/-! ## Moving children in turns -/

section Arriving

variable {move : Move} {children : List Handle} {target : DocId} {holds : Forest → Prop}
  {arrived : Handle → Forest → Prop} {fails : Error → Prop}
  (moves : ∀ child ∈ children, ∀ forest, holds forest →
    (move child target).Ends forest
      (fun _ after => holds after ∧ arrived child after ∧
        ∀ other ∈ children, arrived other forest → arrived other after)
      fails)

include moves

/-- Some of the children are moved: these arrive, and whoever had arrived stays. -/
theorem moveAll_part {ahead : List Handle} (part : ∀ child ∈ ahead, child ∈ children)
    {forest : Forest} (begun : holds forest) :
    (moveAll move target ahead).Ends forest
      (fun _ after => holds after ∧
        ∀ child ∈ children, child ∈ ahead ∨ arrived child forest → arrived child after)
      fails := by
  induction ahead generalizing forest with
  | nil =>
      refine Step.ends_done rfl ⟨begun, fun child _ reached => ?_⟩
      rcases reached with impossible | there
      · cases impossible
      · exact there
  | cons first ahead induction =>
      obtain ⟨here, later⟩ := List.forall_mem_cons.mp part
      unfold moveAll
      apply (moves first here forest begun).bind
      rintro _ middle ⟨held, there, stay⟩
      refine (induction later held).imp ?_ (fun _ => id)
      rintro _ after ⟨heldAfter, arrives⟩
      refine ⟨heldAfter, fun child member reached => arrives child member ?_⟩
      rcases reached with inside | before
      · rcases List.mem_cons.mp inside with rfl | inside
        · exact .inr there
        · exact .inl inside
      · exact .inr (stay child member before)

/-- Children that are moved to a target one after the other have all arrived there in the end, if
no move of one takes another away from where it arrived. -/
theorem moveAll_arrives {forest : Forest} (begun : holds forest) :
    (moveAll move target children).Ends forest
      (fun _ after => holds after ∧ ∀ child ∈ children, arrived child after) fails := by
  refine (moveAll_part moves (fun _ member => member) begun).imp ?_ (fun _ => id)
  rintro _ after ⟨held, arrives⟩
  exact ⟨held, fun child member => arrives child member (.inl member)⟩

end Arriving

/-! ## Guided children -/

/-- The contract of the children of a combination.  `stands` says that a child
stands on its first match at or behind a position, and `frame` what moving a
child does not change. -/
structure Guided (move : Move) (children : List Handle) (meanings : Handle → Meaning)
    (stands : Handle → Nat → Forest → Prop) (frame : Forest → Forest → Prop) : Prop where
  shows : ∀ child ∈ children, ∀ floor forest, stands child floor forest →
    ∃ current, First (meanings child).found floor current ∧
      Shows (meanings child).capabilities current child forest
  raise : ∀ child ∈ children, ∀ floor higher forest, stands child floor forest →
    floor ≤ higher → (∀ doc, forest.position child = some doc → higher ≤ doc.val) →
    stands child higher forest
  moves : ∀ child ∈ children, ∀ floor (target : DocId) forest, stands child floor forest →
    floor ≤ target.val →
    ∃ after, move child target forest = .ok () after ∧ stands child target.val after ∧
      frame forest after ∧
      ∀ other ∈ children, other ≠ child → ∀ floor, stands other floor forest →
        stands other floor after
  refl : ∀ forest, frame forest forest
  trans : ∀ first second third, frame first second → frame second third → frame first third

/-- Children that stand nowhere behind the position they are wanted at. -/
def Ready (children : List Handle) (stands : Handle → Nat → Forest → Prop) (target : Nat)
    (forest : Forest) : Prop :=
  ∀ child ∈ children, ∃ floor, floor ≤ target ∧ stands child floor forest

variable {move : Move} {children : List Handle} {meanings : Handle → Meaning}
  {stands : Handle → Nat → Forest → Prop} {frame : Forest → Forest → Prop}

theorem Ready.later {first second : Nat} {forest : Forest} (ready : Ready children stands first forest)
    (below : first ≤ second) : Ready children stands second forest := by
  intro child member
  obtain ⟨floor, above, standing⟩ := ready child member
  exact ⟨floor, Nat.le_trans above below, standing⟩

/-- A move of one child that leaves the others where they stand leaves all children ready. -/
theorem Ready.moved {target : Nat} {child : Handle} {forest after : Forest}
    (ready : Ready children stands target forest) (there : stands child target after)
    (kept : ∀ other ∈ children, other ≠ child → ∀ floor, stands other floor forest →
      stands other floor after) :
    Ready children stands target after ∧
      ∀ other ∈ children, stands other target forest → stands other target after := by
  constructor
  · intro other member
    by_cases same : other = child
    · exact ⟨target, Nat.le_refl _, same ▸ there⟩
    · obtain ⟨floor, above, standing⟩ := ready other member
      exact ⟨floor, above, kept other member same floor standing⟩
  · intro other member standing
    by_cases same : other = child
    · exact same ▸ there
    · exact kept other member same target standing

/-- Children moved to a target one after the other all stand there in the end. -/
theorem moveAll_stands (guided : Guided move children meanings stands frame) {target : DocId}
    {forest : Forest} (ready : Ready children stands target.val forest) :
    ∃ after, moveAll move target children forest = .ok () after ∧ frame forest after ∧
      ∀ child ∈ children, stands child target.val after := by
  have ends : (moveAll move target children).Ends forest
      (fun _ after => (frame forest after ∧ Ready children stands target.val after) ∧
        ∀ child ∈ children, stands child target.val after)
      (fun _ => False) := by
    refine moveAll_arrives ?_ ⟨guided.refl forest, ready⟩
    rintro child member middle ⟨framed, readyMiddle⟩
    obtain ⟨floor, above, standing⟩ := readyMiddle child member
    obtain ⟨after, moved, there, framedNext, kept⟩ :=
      guided.moves child member floor target middle standing above
    obtain ⟨readyAfter, stay⟩ := readyMiddle.moved there kept
    exact Step.ends_done moved
      ⟨⟨guided.trans _ _ _ framed framedNext, readyAfter⟩, there, stay⟩
  obtain ⟨_, after, run, ⟨framed, _⟩, standing⟩ := ends.exists_ok fun _ => id
  exact ⟨after, run, framed, standing⟩

/-! ## Aligning children -/

theorem absent_of_done (guided : Guided move children meanings stands frame) {child : Handle}
    (member : child ∈ children) {floor : Nat} {forest : Forest}
    (standing : stands child floor forest) (done : forest.position child = none) {doc : DocId}
    (behind : floor ≤ doc.val) : (meanings child).found doc = none := by
  obtain ⟨current, first, shows⟩ := guided.shows child member floor forest standing
  apply first.absent_below behind
  intro other shown
  rw [← shows.position, done] at shown
  cases shown

theorem absent_of_below (guided : Guided move children meanings stands frame) {child : Handle}
    (member : child ∈ children) {floor : Nat} {forest : Forest}
    (standing : stands child floor forest) {place : DocId}
    (shown : forest.position child = some place) {doc : DocId} (behind : floor ≤ doc.val)
    (below : doc < place) : (meanings child).found doc = none := by
  obtain ⟨current, first, shows⟩ := guided.shows child member floor forest standing
  apply first.absent_below behind
  intro other same
  rw [← shows.position, shown] at same
  cases same
  exact below

theorem floor_le_position (guided : Guided move children meanings stands frame) {child : Handle}
    (member : child ∈ children) {floor : Nat} {forest : Forest}
    (standing : stands child floor forest) {place : DocId}
    (shown : forest.position child = some place) : floor ≤ place.val := by
  obtain ⟨current, first, shows⟩ := guided.shows child member floor forest standing
  rw [shows.position] at shown
  exact first.floor_le shown

/-- What moving children in turns ends on: the first document at or behind a target
that no child can refuse, with all children on it. -/
inductive Aligned (children : List Handle) (meanings : Handle → Meaning)
    (stands : Handle → Nat → Forest → Prop) (target : DocId) (forest : Forest) :
    Option DocId → Prop where
  | apart (refused : ∀ doc : DocId, target ≤ doc →
      ∃ child ∈ children, (meanings child).found doc = none) :
      Aligned children meanings stands target forest none
  | together (doc : DocId) (behind : target ≤ doc)
      (standing : ∀ child ∈ children, stands child doc.val forest)
      (shown : ∀ child ∈ children, forest.position child = some doc)
      (refused : ∀ earlier : DocId, target ≤ earlier → earlier < doc →
        ∃ child ∈ children, (meanings child).found earlier = none) :
      Aligned children meanings stands target forest (some doc)

/-- Where one child matches nothing up to a document, aligning may go on from there. -/
theorem Aligned.lower {target doc : DocId} {forest : Forest} {found : Option DocId} {child : Handle}
    (aligned : Aligned children meanings stands doc forest found) (behind : target ≤ doc)
    (member : child ∈ children)
    (skipped : ∀ earlier : DocId, target ≤ earlier → earlier < doc →
      (meanings child).found earlier = none) :
    Aligned children meanings stands target forest found := by
  cases aligned with
  | apart refused =>
      refine .apart fun later reached => ?_
      by_cases below : later < doc
      · exact ⟨child, member, skipped later reached below⟩
      · exact refused later (DocId.not_lt.mp below)
  | together found above standing shown refused =>
      refine .together found (Nat.le_trans behind above) standing shown ?_
      intro earlier reached below
      by_cases before : earlier < doc
      · exact ⟨child, member, skipped earlier reached before⟩
      · exact refused earlier (DocId.not_lt.mp before) below

/-- Aligning ends on the least common match. -/
theorem align_guided (guided : Guided move children meanings stands frame)
    {target : DocId} {forest : Forest}
    (ready : Ready children stands target.val forest) :
    ∃ found after, align move children target forest = .ok found after ∧ frame forest after ∧
      Aligned children meanings stands target after found := by
  induction measure : target.above using Nat.strongRecOn generalizing target forest with
  | ind above induction =>
      obtain ⟨middle, moved, framed, standing⟩ := moveAll_stands guided ready
      rw [align, Step.bind_ok _ moved, Step.bind_ok _ (Step.get_run _)]
      cases most : middle.greatest children with
      | none =>
          obtain ⟨child, member, done⟩ := greatest_none most
          refine ⟨none, middle, rfl, framed, .apart ?_⟩
          intro doc behind
          exact ⟨child, member, absent_of_done guided member (standing child member) done behind⟩
      | some doc =>
          obtain ⟨shown, source⟩ := greatest_some most
          dsimp only
          by_cases further : target < doc
          · rw [if_pos further]
            obtain ⟨child, member, place⟩ : ∃ child ∈ children, middle.position child = some doc := by
              rcases source with zero | known
              · rw [zero] at further
                exact absurd further (Nat.not_lt_zero _)
              · exact known
            have readyThere : Ready children stands doc.val middle :=
              fun other inside => ⟨target.val, Nat.le_of_lt further, standing other inside⟩
            obtain ⟨found, after, run, framedRest, aligned⟩ :=
              induction doc.above (measure ▸ DocId.above_lt_above further) readyThere rfl
            refine ⟨found, after, run, guided.trans _ _ _ framed framedRest, ?_⟩
            apply aligned.lower (Nat.le_of_lt further) member
            intro earlier behind below
            exact absent_of_below guided member (standing child member) place behind below
          · rw [if_neg further]
            refine ⟨some target, middle, rfl, framed, .together target (Nat.le_refl _) standing ?_ ?_⟩
            · intro child member
              obtain ⟨place, here, below⟩ := shown child member
              have reached := floor_le_position guided member (standing child member) here
              have limit := DocId.le_iff.mp (DocId.not_lt.mp further)
              have inside := DocId.le_iff.mp below
              rw [here]
              exact congrArg some (DocId.eq_of_val_eq (by omega))
            · intro earlier behind below
              exact absurd behind (DocId.not_le.mpr below)

end Forest

end Concordance
