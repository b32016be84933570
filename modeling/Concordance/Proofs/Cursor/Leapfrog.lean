import Concordance.Proofs.Block.RoundTrip
import Concordance.Proofs.Cursor.Motion

/-!
# Leapfrogging

Children that are moved in turns, each time to the greatest document on which one of them stands,
meet on the least document that all of them have left, or one of them runs out.  Of a child it
matters only which documents it has left and that a move drops those below its target; how far it
jumps does not.  Each turn but the last raises the target, so there are finitely many.
-/

namespace Concordance

/-- The documents at or behind a target. -/
def DocId.onward (target : DocId) (docs : List DocId) : List DocId :=
  docs.filter fun doc => target ≤ doc

theorem DocId.mem_onward {target doc : DocId} {docs : List DocId} :
    doc ∈ target.onward docs ↔ doc ∈ docs ∧ target ≤ doc := by
  simp [onward]

theorem DocId.onward_onward {target further : DocId} (above : target ≤ further)
    (docs : List DocId) : further.onward (target.onward docs) = further.onward docs := by
  unfold onward
  rw [List.filter_filter]
  refine List.filter_congr fun doc _ => ?_
  by_cases reached : further ≤ doc
  · have behind : target ≤ doc := Nat.le_trans above reached
    simp [reached, behind]
  · simp [reached]

namespace Forest

/-- A child of which a move to a target has left the documents at or behind it.  It stands on the
first of them, or is done if there is none. -/
structure Landed (holds : Handle → Nat → List DocId → Forest → Prop) (target : DocId)
    (docs : List DocId) (child : Handle) (forest : Forest) : Prop where
  held : holds child target.val (target.onward docs) forest
  place : forest.position child = (target.onward docs).head?

/-- The contract of children that run through lists of documents.  `holds` says which documents a
child has left and from which position on it can be moved; where it stands before it is moved is
open.  The other children stay as they are, or are moved along if they share their documents with
the one that is moved. -/
structure Leaping (move : Move) (children : List Handle)
    (holds : Handle → Nat → List DocId → Forest → Prop) : Prop where
  ascending : ∀ child ∈ children, ∀ floor docs forest, holds child floor docs forest →
    docs.Pairwise (· < ·)
  moves : ∀ child ∈ children, ∀ floor docs (target : DocId) forest,
    holds child floor docs forest → floor ≤ target.val →
    ∃ after, move child target forest = .ok () after ∧ Landed holds target docs child after ∧
      ∀ other ∈ children, other ≠ child → ∀ lower others, holds other lower others forest →
        lower ≤ target.val →
        (holds other lower others after ∧ after.position other = forest.position other) ∨
          Landed holds target others other after

/-- The turns in which children are moved: to a target, until one of them is done or the greatest
document is the target; otherwise that document is the next target. -/
inductive Turns (move : Move) (children : List Handle) :
    DocId → Forest → Option DocId → Forest → Prop where
  | spent {target : DocId} {forest after : Forest}
      (moved : moveAll move target children forest = .ok () after)
      (greatest : after.greatest children = none) :
      Turns move children target forest none after
  | agreed {target : DocId} {forest after : Forest}
      (moved : moveAll move target children forest = .ok () after)
      (greatest : after.greatest children = some target) :
      Turns move children target forest (some target) after
  | onward {target doc : DocId} {forest middle after : Forest} {found : Option DocId}
      (moved : moveAll move target children forest = .ok () middle)
      (greatest : middle.greatest children = some doc) (differs : doc ≠ target)
      (later : Turns move children doc middle found after) :
      Turns move children target forest found after

variable {move : Move} {children : List Handle}
  {holds : Handle → Nat → List DocId → Forest → Prop} {left : Handle → List DocId}
  {target doc : DocId} {forest after : Forest} {found : Option DocId}

/-- The turns end in one way only. -/
theorem Turns.unique {other : Option DocId} {last : Forest}
    (first : Turns move children target forest found after)
    (second : Turns move children target forest other last) : other = found ∧ last = after := by
  induction first with
  | spent moved greatest =>
      cases second with
      | spent again _ =>
          cases moved.symm.trans again
          exact ⟨rfl, rfl⟩
      | agreed again known | onward again known _ _ =>
          cases moved.symm.trans again
          cases greatest.symm.trans known
  | agreed moved greatest =>
      cases second with
      | agreed again _ =>
          cases moved.symm.trans again
          exact ⟨rfl, rfl⟩
      | spent again known =>
          cases moved.symm.trans again
          cases greatest.symm.trans known
      | onward again known differs _ =>
          cases moved.symm.trans again
          cases greatest.symm.trans known
          exact absurd rfl differs
  | onward moved greatest differs _ induction =>
      cases second with
      | spent again known =>
          cases moved.symm.trans again
          cases greatest.symm.trans known
      | agreed again known =>
          cases moved.symm.trans again
          cases greatest.symm.trans known
          exact absurd rfl differs
      | onward again known _ later =>
          cases moved.symm.trans again
          cases greatest.symm.trans known
          exact induction later

/-! ## One turn -/

theorem Landed.congr {docs others : List DocId} {child : Handle}
    (landed : Landed holds target docs child forest)
    (same : target.onward docs = target.onward others) :
    Landed holds target others child forest :=
  ⟨same ▸ landed.held, same ▸ landed.place⟩

/-- A child that can be moved to a target and has the same documents left from there on as
`left` has. -/
def Pending (holds : Handle → Nat → List DocId → Forest → Prop) (left : Handle → List DocId)
    (target : DocId) (child : Handle) (forest : Forest) : Prop :=
  ∃ floor docs, floor ≤ target.val ∧ holds child floor docs forest ∧
    target.onward docs = target.onward (left child)

theorem Landed.pending {further : DocId} {child : Handle}
    (landed : Landed holds target (left child) child forest) (above : target ≤ further) :
    Pending holds left further child forest :=
  ⟨target.val, _, above, landed.held, DocId.onward_onward above _⟩

/-- A move of one child brings it to the target and keeps what the others have left from there. -/
theorem move_pending (leaping : Leaping move children holds) {child : Handle}
    (member : child ∈ children)
    (pending : ∀ child ∈ children, Pending holds left target child forest) :
    ∃ after, move child target forest = .ok () after ∧
      Landed holds target (left child) child after ∧
      ∀ other ∈ children, Pending holds left target other after ∧
        (Landed holds target (left other) other forest →
          Landed holds target (left other) other after) := by
  obtain ⟨floor, docs, above, held, same⟩ := pending child member
  obtain ⟨after, moved, there, others⟩ :=
    leaping.moves child member floor docs target forest held above
  have landed := there.congr same
  refine ⟨after, moved, landed, fun other isChild => ?_⟩
  by_cases equal : other = child
  · subst equal
    exact ⟨landed.pending (Nat.le_refl _), fun _ => landed⟩
  · constructor
    · obtain ⟨lower, rest, below, held, kept⟩ := pending other isChild
      rcases others other isChild equal lower rest held below with ⟨stays, _⟩ | along
      · exact ⟨lower, rest, below, stays, kept⟩
      · exact (along.congr kept).pending (Nat.le_refl _)
    · intro before
      rcases others other isChild equal _ _ before.held (Nat.le_refl _) with ⟨stays, still⟩ | along
      · exact ⟨stays, still.trans before.place⟩
      · exact along.congr (DocId.onward_onward (Nat.le_refl _) _)

/-- One turn brings all children to its target. -/
theorem moveAll_lands (leaping : Leaping move children holds)
    (pending : ∀ child ∈ children, Pending holds left target child forest) :
    ∃ after, moveAll move target children forest = .ok () after ∧
      ∀ child ∈ children, Landed holds target (left child) child after := by
  have ends : (moveAll move target children).Ends forest
      (fun _ after => (∀ child ∈ children, Pending holds left target child after) ∧
        ∀ child ∈ children, Landed holds target (left child) child after)
      (fun _ => False) := by
    refine moveAll_arrives (fun child member middle pending => ?_) pending
    obtain ⟨after, moved, landed, others⟩ := move_pending leaping member pending
    exact Step.ends_done moved ⟨fun other isChild => (others other isChild).1, landed,
      fun other isChild => (others other isChild).2⟩
  obtain ⟨_, after, run, _, landed⟩ := ends.exists_ok fun _ => id
  exact ⟨after, run, landed⟩

/-! ## Where a child stands -/

namespace Landed

variable {docs : List DocId} {child : Handle}

theorem missing_of_done (landed : Landed holds target docs child forest)
    (done : forest.position child = none) (behind : target ≤ doc) : doc ∉ docs := by
  intro member
  have empty := List.head?_eq_none_iff.mp (landed.place.symm.trans done)
  have ahead := DocId.mem_onward.mpr ⟨member, behind⟩
  rw [empty] at ahead
  cases ahead

/-- The document on which a child stands is one that it has left at or behind the target. -/
theorem mem_of_position {place : DocId} (landed : Landed holds target docs child forest)
    (shown : forest.position child = some place) : place ∈ docs ∧ target ≤ place :=
  DocId.mem_onward.mp (List.mem_of_head? (landed.place.symm.trans shown))

theorem missing_of_below {place : DocId} (leaping : Leaping move children holds)
    (isChild : child ∈ children) (landed : Landed holds target docs child forest)
    (shown : forest.position child = some place) (behind : target ≤ doc) (below : doc < place) :
    doc ∉ docs := by
  intro member
  have ahead := DocId.mem_onward.mpr ⟨member, behind⟩
  obtain ⟨later, split⟩ := List.head?_eq_some_iff.mp (landed.place.symm.trans shown)
  have ascending := leaping.ascending child isChild _ _ _ landed.held
  rw [split] at ahead ascending
  rcases List.mem_cons.mp ahead with same | inside
  · rw [same] at below
    exact Nat.lt_irrefl _ below
  · exact Nat.lt_asymm below (List.rel_of_pairwise_cons ascending inside)

end Landed

/-! ## All turns -/

/-- A document at or behind a target that all children have left. -/
def Common (children : List Handle) (left : Handle → List DocId) (target doc : DocId) : Prop :=
  target ≤ doc ∧ ∀ child ∈ children, doc ∈ left child

/-- What moving children in turns to a target ends on: a child is done and no document is left to
all of them, or all stand on the first document that is. -/
inductive Met (children : List Handle) (holds : Handle → Nat → List DocId → Forest → Prop)
    (left : Handle → List DocId) (target : DocId) (forest : Forest) : Option DocId → Prop where
  | apart (done : ∃ child ∈ children, forest.position child = none)
      (missing : ∀ doc : DocId, target ≤ doc → ∃ child ∈ children, doc ∉ left child) :
      Met children holds left target forest none
  | together (doc : DocId) (common : Common children left target doc)
      (landed : ∀ child ∈ children, Landed holds doc (left child) child forest)
      (shown : ∀ child ∈ children, forest.position child = some doc)
      (missing : ∀ earlier : DocId, target ≤ earlier → earlier < doc →
        ∃ child ∈ children, earlier ∉ left child) :
      Met children holds left target forest (some doc)

/-- Where one child has nothing left up to a document, the turns may go on from there. -/
theorem Met.lower {child : Handle} (met : Met children holds left doc forest found)
    (behind : target ≤ doc) (member : child ∈ children)
    (skipped : ∀ earlier : DocId, target ≤ earlier → earlier < doc → earlier ∉ left child) :
    Met children holds left target forest found := by
  cases met with
  | apart done missing =>
      refine .apart done fun later reached => ?_
      by_cases below : later < doc
      · exact ⟨child, member, skipped later reached below⟩
      · exact missing later (DocId.not_lt.mp below)
  | together found common landed shown missing =>
      refine .together found ⟨Nat.le_trans behind common.1, common.2⟩ landed shown ?_
      intro earlier reached below
      by_cases before : earlier < doc
      · exact ⟨child, member, skipped earlier reached before⟩
      · exact missing earlier (DocId.not_lt.mp before) below

/-- No child stands before the target, so the greatest document is not below it. -/
theorem le_greatest (occupied : children ≠ [])
    (landed : ∀ child ∈ children, Landed holds target (left child) child forest)
    (shown : ∀ child ∈ children, ∃ place, forest.position child = some place ∧ place ≤ doc) :
    target ≤ doc := by
  obtain ⟨child, member⟩ := List.exists_mem_of_ne_nil children occupied
  obtain ⟨place, here, below⟩ := shown child member
  exact Nat.le_trans ((landed child member).mem_of_position here).2 below

/-- A turn whose greatest document is its target is the last: no child is before it. -/
theorem met_of_agreed
    (landed : ∀ child ∈ children, Landed holds target (left child) child forest)
    (shown : ∀ child ∈ children, ∃ place, forest.position child = some place ∧ place ≤ target) :
    Met children holds left target forest (some target) := by
  have together : ∀ child ∈ children, forest.position child = some target := by
    intro child member
    obtain ⟨place, here, below⟩ := shown child member
    have reached := ((landed child member).mem_of_position here).2
    rw [here, DocId.eq_of_val_eq (Nat.le_antisymm below reached)]
  refine .together target ⟨Nat.le_refl _, fun child member => ?_⟩ landed together ?_
  · exact ((landed child member).mem_of_position (together child member)).1
  · intro earlier behind below
    exact absurd behind (DocId.not_le.mpr below)

/-- The turns end, aligning makes them, and the children meet.  The measure is how many documents
lie above the target. -/
theorem align_met (leaping : Leaping move children holds) (occupied : children ≠ [])
    (pending : ∀ child ∈ children, Pending holds left target child forest) :
    ∃ found after, Turns move children target forest found after ∧
      align move children target forest = .ok found after ∧
      Met children holds left target after found := by
  induction measure : target.above using Nat.strongRecOn generalizing target forest with
  | ind above induction =>
      obtain ⟨middle, moved, landed⟩ := moveAll_lands leaping pending
      rw [align, Step.bind_ok _ moved, Step.bind_ok _ (Step.get_run _)]
      cases most : middle.greatest children with
      | none =>
          obtain ⟨child, member, done⟩ := greatest_none most
          refine ⟨none, middle, .spent moved most, rfl, .apart ⟨child, member, done⟩ ?_⟩
          intro doc behind
          exact ⟨child, member, (landed child member).missing_of_done done behind⟩
      | some doc =>
          obtain ⟨shown, source⟩ := greatest_some most
          dsimp only
          by_cases further : target < doc
          · rw [if_pos further]
            obtain ⟨child, member, place⟩ :
                ∃ child ∈ children, middle.position child = some doc := by
              rcases source with zero | known
              · rw [zero] at further
                exact absurd further (Nat.not_lt_zero _)
              · exact known
            obtain ⟨found, after, turns, run, met⟩ :=
              induction doc.above (measure ▸ DocId.above_lt_above further)
                (fun other inside => (landed other inside).pending (Nat.le_of_lt further)) rfl
            have differs : doc ≠ target := fun same => Nat.lt_irrefl _ (same ▸ further)
            refine ⟨found, after, .onward moved most differs turns, run, ?_⟩
            apply met.lower (Nat.le_of_lt further) member
            intro earlier behind below
            exact (landed child member).missing_of_below leaping member place behind below
          · rw [if_neg further]
            have same : doc = target := DocId.eq_of_val_eq
              (Nat.le_antisymm (DocId.not_lt.mp further) (le_greatest occupied landed shown))
            subst same
            exact ⟨some doc, middle, .agreed moved most, rfl, met_of_agreed landed shown⟩

namespace Met

/-- What is found is the least document that all children have left. -/
theorem eq_some_iff (met : Met children holds left target forest found) :
    found = some doc ↔ Common children left target doc ∧
      ∀ other, Common children left target other → doc ≤ other := by
  cases met with
  | apart _ missing =>
      constructor
      · intro impossible
        cases impossible
      · intro ⟨common, _⟩
        obtain ⟨child, member, absent⟩ := missing doc common.1
        exact absurd (common.2 child member) absent
  | together least common _ _ missing =>
      have below : ∀ other, Common children left target other → least ≤ other := by
        intro other shared
        refine DocId.not_lt.mp fun before => ?_
        obtain ⟨child, member, absent⟩ := missing other shared.1 before
        exact absent (shared.2 child member)
      constructor
      · intro same
        cases same
        exact ⟨common, below⟩
      · intro ⟨shared, smallest⟩
        have same := Nat.le_antisymm (below doc shared) (smallest least common)
        rw [DocId.eq_of_val_eq same]

theorem eq_none_iff (met : Met children holds left target forest found) :
    found = none ↔ ¬∃ doc, Common children left target doc := by
  cases met with
  | apart _ missing =>
      refine iff_of_true rfl fun ⟨doc, common⟩ => ?_
      obtain ⟨child, member, absent⟩ := missing doc common.1
      exact absent (common.2 child member)
  | together least common => exact iff_of_false (nomatch ·) fun none => none ⟨least, common⟩

theorem standing (met : Met children holds left target forest (some doc)) :
    ∀ child ∈ children, forest.position child = some doc ∧
      Landed holds doc (left child) child forest := by
  cases met with
  | together _ _ landed shown =>
      exact fun child member => ⟨shown child member, landed child member⟩

theorem spent (met : Met children holds left target forest none) :
    ∃ child ∈ children, forest.isDone child = true := by
  cases met with
  | apart done _ =>
      obtain ⟨child, member, nowhere⟩ := done
      exact ⟨child, member, by rw [isDone, nowhere]; rfl⟩

end Met

/-! ## Trees of cursors -/

/-- The documents that a meaning matches from some position on. -/
structure Lists (meaning : Meaning) (floor : Nat) (docs : List DocId) : Prop where
  ascending : docs.Pairwise (· < ·)
  mem_iff : ∀ doc, doc ∈ docs ↔ floor ≤ doc.val ∧ meaning.found doc ≠ none

namespace Lists

variable {meaning : Meaning} {floor : Nat} {docs : List DocId}

theorem onward (lists : Lists meaning floor docs) (above : floor ≤ target.val) :
    Lists meaning target.val (target.onward docs) := by
  refine ⟨lists.ascending.filter _, fun doc => ?_⟩
  rw [DocId.mem_onward, lists.mem_iff]
  constructor
  · intro ⟨⟨_, known⟩, behind⟩
    exact ⟨behind, known⟩
  · intro ⟨behind, known⟩
    exact ⟨⟨Nat.le_trans above behind, known⟩, behind⟩

/-- The first match is in the first of the documents. -/
theorem head?_eq {current : Option Match} (lists : Lists meaning floor docs)
    (first : First meaning.found floor current) : docs.head? = current.map Match.doc := by
  cases first with
  | nowhere absent =>
      refine List.head?_eq_none_iff.mpr (List.eq_nil_iff_forall_not_mem.mpr fun doc member => ?_)
      obtain ⟨behind, known⟩ := (lists.mem_iff doc).mp member
      exact known (absent doc behind)
  | somewhere current behind here before =>
      have ascending := lists.ascending
      have member : current.doc ∈ docs := (lists.mem_iff _).mpr ⟨behind, by simp [here]⟩
      cases docs with
      | nil => cases member
      | cons head rest =>
          obtain ⟨reached, known⟩ := (lists.mem_iff head).mp List.mem_cons_self
          rcases List.mem_cons.mp member with same | inside
          · rw [List.head?_cons, Option.map_some, same]
          · exact absurd (before head reached (List.rel_of_pairwise_cons ascending inside)) known

/-- The postings of a source are in the documents that it lists. -/
theorem of_source {postings : List Posting} (ascending : Block.Ascending postings)
    (withExtents : Bool) :
    Lists (.source postings withExtents) 0 (postings.map Posting.doc) := by
  refine ⟨List.pairwise_map.mpr ascending, fun doc => ?_⟩
  simp [Meaning.source]

end Lists

/-- Children that stand on their first matches run through the documents that they match. -/
theorem Guided.leaping {meanings : Handle → Meaning} {stands : Handle → Nat → Forest → Prop}
    {frame : Forest → Forest → Prop} (guided : Guided move children meanings stands frame) :
    Leaping move children fun child floor docs forest =>
      stands child floor forest ∧ Lists (meanings child) floor docs where
  ascending _ _ _ _ _ held := held.2.ascending
  moves child member floor docs target forest held above := by
    obtain ⟨standing, lists⟩ := held
    obtain ⟨after, moved, there, _, kept⟩ :=
      guided.moves child member floor target forest standing above
    obtain ⟨current, first, shows⟩ := guided.shows child member target.val after there
    have ahead := lists.onward above
    refine ⟨after, moved, ⟨⟨there, ahead⟩, shows.position.trans (ahead.head?_eq first).symm⟩, ?_⟩
    intro other isChild different lower others ⟨before, listed⟩ _
    have stays := kept other isChild different lower before
    obtain ⟨was, firstWas, showed⟩ := guided.shows other isChild lower forest before
    obtain ⟨still, firstStill, shown⟩ := guided.shows other isChild lower after stays
    refine .inl ⟨⟨stays, listed⟩, ?_⟩
    rw [shown.position, showed.position, firstStill.unique firstWas]

/-! ## The least common document -/

namespace Example

/-- Three leaves. -/
def leaves : List Handle := [⟨0⟩, ⟨1⟩, ⟨2⟩]

/-- The documents of each leaf. -/
def docs : Handle → List DocId
  | ⟨0⟩ => [.ofNat 1, .ofNat 5, .ofNat 9, .ofNat 12]
  | ⟨1⟩ => [.ofNat 5, .ofNat 6, .ofNat 12, .ofNat 20]
  | _ => [.ofNat 2, .ofNat 12, .ofNat 30]

/-- One occurrence in each document. -/
def postings (child : Handle) : List Posting :=
  (docs child).map fun doc => ⟨doc, 1, [.ofNats 0 1]⟩

def meanings (child : Handle) : Meaning := .source (postings child) false

def Holds (child : Handle) (floor : Nat) (docs : List DocId) (forest : Forest) : Prop :=
  Tracks forest (meanings child) child.index child floor ∧ Lists (meanings child) floor docs

theorem encodable {child : Handle} (member : child ∈ leaves) :
    Block.Encodable (postings child) := by
  have ascending : ∀ child ∈ leaves, (docs child).Pairwise (· < ·) := by decide
  refine ⟨List.pairwise_map.mpr (ascending child member), fun posting inside => ?_⟩
  obtain ⟨doc, _, rfl⟩ := List.mem_map.mp inside
  have ordered : Extent.WellOrdered [.ofNats 0 1] := by decide
  exact ⟨rfl, List.cons_ne_nil _ _, ordered⟩

theorem stored {child : Handle} (member : child ∈ leaves)
    (room : (Block.image 2 (postings child)).length < 9223372036854775808) :
    Block.Stored 2 (postings child) := by
  have small : ∀ child ∈ leaves, (∀ posting ∈ postings child, posting.count < 4294967296) ∧
      40 * (postings child).length < 9223372036854775808 := by decide
  obtain ⟨counts, memory⟩ := small child member
  exact @Block.stored_of_addressable 2 _ ⟨by decide, counts, memory⟩ (encodable member) room

theorem lists {child : Handle} (member : child ∈ leaves) :
    Lists (meanings child) 0 (docs child) := by
  have listed := Lists.of_source (encodable member).ascending false
  rwa [postings, List.map_map, show Posting.doc ∘ _ = id from rfl, List.map_id] at listed

end Example

/-- Children that keep to their contract are moved in finitely many turns, whatever the target, and
aligning them is making these turns.  The least document at or behind the target that all of them
have left is found, with all of them on it; if there is none, one of them is done. -/
theorem align_least (leaping : Leaping move children holds) (occupied : children ≠ [])
    (left : Handle → List DocId) (target : DocId) (forest : Forest)
    (ready : ∀ child ∈ children, ∃ floor, floor ≤ target.val ∧
      holds child floor (left child) forest) :
    ∃ found after, align move children target forest = .ok found after ∧
      (∀ other last, Turns move children target forest other last ↔
        other = found ∧ last = after) ∧
      (∀ doc, found = some doc ↔ Common children left target doc ∧
        ∀ other, Common children left target other → doc ≤ other) ∧
      (found = none ↔ ¬∃ doc, Common children left target doc) ∧
      (∀ doc, found = some doc → ∀ child ∈ children, after.position child = some doc ∧
        Landed holds doc (left child) child after) ∧
      (found = none → ∃ child ∈ children, after.isDone child = true) := by
  have pending : ∀ child ∈ children, Pending holds left target child forest := by
    intro child member
    obtain ⟨floor, above, held⟩ := ready child member
    exact ⟨floor, left child, above, held, rfl⟩
  obtain ⟨found, after, turns, run, met⟩ := align_met leaping occupied pending
  refine ⟨found, after, run, fun other last => ⟨turns.unique, ?_⟩, fun _ => met.eq_some_iff,
    met.eq_none_iff, ?_, ?_⟩
  · rintro ⟨rfl, rfl⟩
    exact turns
  · rintro doc rfl
    exact met.standing
  · rintro rfl
    exact met.spent

/-- Three leaves, each of which passes over documents of the others. -/
theorem align_least_leaves :
    ∃ first second third : Leaf,
      Leaf.open? [97] (Block.image 2 (Example.postings ⟨0⟩)) false = .ok first ∧
      Leaf.open? [98] (Block.image 2 (Example.postings ⟨1⟩)) false = .ok second ∧
      Leaf.open? [99] (Block.image 2 (Example.postings ⟨2⟩)) false = .ok third ∧
      let forest : Forest := ⟨#[.leaf first, .leaf second, .leaf third]⟩
      Leaping moveTo Example.leaves Example.Holds ∧
      (∀ child ∈ Example.leaves, Example.Holds child 0 (Example.docs child) forest) ∧
      ∃ after, align moveTo Example.leaves (.ofNat 2) forest = .ok (some (.ofNat 12)) after ∧
        ∀ child ∈ Example.leaves, after.position child = some (.ofNat 12) := by
  obtain ⟨first, openedFirst, standsFirst⟩ :=
    Leaf.open?_at [97] (@Example.stored ⟨0⟩ (by decide) (by cbv)) false
  obtain ⟨second, openedSecond, standsSecond⟩ :=
    Leaf.open?_at [98] (@Example.stored ⟨1⟩ (by decide) (by cbv)) false
  obtain ⟨third, openedThird, standsThird⟩ :=
    Leaf.open?_at [99] (@Example.stored ⟨2⟩ (by decide) (by cbv)) false
  let forest : Forest := ⟨#[.leaf first, .leaf second, .leaf third]⟩
  have tracks : ∀ child ∈ Example.leaves,
      Tracks forest (Example.meanings child) child.index child 0 := by
    refine List.forall_mem_cons.mpr
      ⟨?_, List.forall_mem_cons.mpr ⟨?_, List.forall_mem_singleton.mpr ?_⟩⟩
    · exact .leaf (Nat.le_refl _) (Nat.zero_lt_succ _) rfl standsFirst
    · exact .leaf (Nat.le_refl _) (Nat.succ_lt_succ (Nat.zero_lt_succ _)) rfl standsSecond
    · exact .leaf (Nat.le_refl _) (Nat.lt_succ_self _) rfl standsThird
  have family : Family .conjunction Example.leaves Example.meanings Handle.index 0 3 := by
    refine ⟨fun child member => (tracks child member).sound, fun _ _ => rfl, ?_, by decide,
      by decide⟩
    intro doc found known
    simp only [Combination.meaning, Combination.found] at known
    split at known
    · cases known
      exact Nat.zero_lt_succ _
    · cases known
  have leaping : Leaping moveTo Example.leaves Example.Holds :=
    (guided_of_moves (moveTo_moves 3) family).leaping
  have holding : ∀ child ∈ Example.leaves, Example.Holds child 0 (Example.docs child) forest :=
    fun child member => ⟨tracks child member, Example.lists member⟩
  obtain ⟨found, after, run, _, least, _, standing, _⟩ :=
    align_least leaping (by decide) Example.docs (.ofNat 2) forest fun child member =>
      ⟨0, Nat.zero_le _, holding child member⟩
  have shared : ∀ doc ∈ Example.docs ⟨0⟩, doc ∈ Example.docs ⟨1⟩ → doc ∈ Example.docs ⟨2⟩ →
      DocId.ofNat 12 ≤ doc := by decide
  have twelve : found = some (.ofNat 12) := by
    refine (least _).mpr ⟨⟨by decide, by decide⟩, fun other common => ?_⟩
    exact shared other (common.2 ⟨0⟩ (by decide)) (common.2 ⟨1⟩ (by decide))
      (common.2 ⟨2⟩ (by decide))
  subst twelve
  exact ⟨first, second, third, openedFirst, openedSecond, openedThird, leaping, holding, after,
    run, fun child member => (standing _ rfl child member).1⟩

end Forest

end Concordance
