import Concordance.Proofs.Cursor.Guided
import Concordance.Proofs.Query.Soundness

/-!
# Driving children that may fail

What a combination relies on while it moves is less than what its children mean:
that a child moved to a target ends at or behind it, and that it shows whole
matches.  Then nothing but a failure of a child can make the combination fail,
and the matches that it shows are whole too.
-/

namespace Concordance

/-- A match that can be handed to a parent, with a bound on its extents. -/
structure Match.Whole (offered : Capabilities) (weight : Nat) (found : Match) : Prop where
  occurs : offered.count = true → weight < 4294967296 → 0 < found.count
  extents : offered.extents = true → found.extents ≠ [] ∧
    Extent.WellOrdered found.extents ∧ found.extents.length ≤ weight

namespace Forest

/-- A cursor shows what it offers of the document on which it stands. -/
structure Whole (offered : Capabilities) (weight : Nat) (handle : Handle) (forest : Forest) :
    Prop where
  capabilities : forest.capabilities handle = offered
  shows : ∀ doc, forest.position handle = some doc → ∃ found : Match, found.Whole offered weight ∧
    (offered.count = true → forest.count handle = .ok found.count) ∧
    (offered.extents = true → forest.extents handle = .ok found.extents)

/-- The contract of children that may fail.  `stands` says that a child can be moved
from a position on. -/
structure Driven (move : Move) (children : List Handle) (offers : Handle → Capabilities)
    (weights : Handle → Nat) (stands : Handle → Nat → Forest → Prop)
    (frame : Forest → Forest → Prop) (fails : Error → Prop) : Prop where
  whole : ∀ child ∈ children, ∀ floor forest, stands child floor forest →
    Whole (offers child) (weights child) child forest
  reached : ∀ child ∈ children, ∀ floor forest doc, stands child floor forest →
    forest.position child = some doc → floor ≤ doc.val
  raise : ∀ child ∈ children, ∀ floor higher forest, stands child floor forest →
    floor ≤ higher → (∀ doc, forest.position child = some doc → higher ≤ doc.val) →
    stands child higher forest
  moves : ∀ child ∈ children, ∀ floor (target : DocId) forest, stands child floor forest →
    floor ≤ target.val →
    (move child target).Ends forest
      (fun _ after => stands child target.val after ∧ frame forest after ∧
        ∀ other ∈ children, other ≠ child → ∀ floor, stands other floor forest →
          stands other floor after)
      fails
  refl : ∀ forest, frame forest forest
  trans : ∀ first second third, frame first second → frame second third → frame first third

variable {move : Move} {children : List Handle} {offers : Handle → Capabilities}
  {weights : Handle → Nat} {stands : Handle → Nat → Forest → Prop}
  {frame : Forest → Forest → Prop} {fails : Error → Prop}

/-! ## Moving -/

theorem moveAll_ends (driven : Driven move children offers weights stands frame fails)
    {target : DocId} {forest : Forest} (ready : Ready children stands target.val forest) :
    (moveAll move target children).Ends forest
      (fun _ after => frame forest after ∧ ∀ child ∈ children, stands child target.val after)
      fails := by
  have ends : (moveAll move target children).Ends forest
      (fun _ after => (frame forest after ∧ Ready children stands target.val after) ∧
        ∀ child ∈ children, stands child target.val after)
      fails := by
    refine moveAll_arrives ?_ ⟨driven.refl forest, ready⟩
    rintro child member middle ⟨framed, readyMiddle⟩
    obtain ⟨floor, above, standing⟩ := readyMiddle child member
    refine (driven.moves child member floor target middle standing above).imp ?_ (fun _ => id)
    rintro _ after ⟨there, framedNext, kept⟩
    obtain ⟨readyAfter, stay⟩ := readyMiddle.moved there kept
    exact ⟨⟨driven.trans _ _ _ framed framedNext, readyAfter⟩, there, stay⟩
  refine ends.imp ?_ (fun _ => id)
  rintro _ after ⟨⟨framed, _⟩, standing⟩
  exact ⟨framed, standing⟩

/-- Where children stand when a combination has found a document at or behind a target, or
none. -/
inductive Brought (children : List Handle) (stands : Handle → Nat → Forest → Prop)
    (target : DocId) (forest : Forest) : Option DocId → Prop where
  | nowhere (standing : ∀ child ∈ children, ∃ floor, stands child floor forest) :
      Brought children stands target forest none
  | somewhere (doc : DocId) (behind : target ≤ doc)
      (standing : ∀ child ∈ children, stands child doc.val forest) :
      Brought children stands target forest (some doc)

theorem Brought.lower {target doc : DocId} {forest : Forest} {found : Option DocId}
    (brought : Brought children stands doc forest found) (behind : target ≤ doc) :
    Brought children stands target forest found := by
  cases brought with
  | nowhere standing => exact .nowhere standing
  | somewhere found above standing => exact .somewhere found (Nat.le_trans behind above) standing

theorem align_ends (driven : Driven move children offers weights stands frame fails)
    {target : DocId} {forest : Forest} (ready : Ready children stands target.val forest) :
    (align move children target).Ends forest
      (fun found after => frame forest after ∧ Brought children stands target after found)
      fails := by
  induction measure : target.above using Nat.strongRecOn generalizing target forest with
  | ind above induction =>
      rw [align]
      apply (moveAll_ends driven ready).bind
      rintro _ middle ⟨framed, standing⟩
      apply Step.Ends.behind (Step.get_run middle)
      cases most : middle.greatest children with
      | none =>
          refine Step.ends_done rfl ⟨framed, .nowhere ?_⟩
          exact fun child member => ⟨_, standing child member⟩
      | some doc =>
          dsimp only
          by_cases further : target < doc
          · rw [if_pos further]
            have readyThere : Ready children stands doc.val middle :=
              fun child member => ⟨target.val, Nat.le_of_lt further, standing child member⟩
            refine (induction doc.above (measure ▸ DocId.above_lt_above further) readyThere rfl).imp
              ?_ (fun _ => id)
            rintro found after ⟨framedRest, brought⟩
            exact ⟨driven.trans _ _ _ framed framedRest, brought.lower (Nat.le_of_lt further)⟩
          · rw [if_neg further]
            exact Step.ends_done rfl ⟨framed, .somewhere target (Nat.le_refl _) standing⟩

theorem locate_ends (driven : Driven move children offers weights stands frame fails)
    (combination : Combination) {target : DocId} {forest : Forest}
    (ready : Ready children stands target.val forest) :
    (locate move combination children target).Ends forest
      (fun found after => frame forest after ∧ Brought children stands target after found)
      fails := by
  unfold locate
  by_cases needs : combination.needsAll = true
  · rw [if_pos needs]
    exact align_ends driven ready
  · rw [if_neg needs]
    apply (moveAll_ends driven ready).bind
    rintro _ after ⟨framed, standing⟩
    refine Step.ends_done rfl ⟨framed, ?_⟩
    rcases least_cases after children with
      ⟨none, _⟩ | ⟨doc, found, ⟨source, isSource, place⟩, least⟩
    · rw [none]
      exact .nowhere fun child member => ⟨_, standing child member⟩
    · rw [found]
      have behind := driven.reached source isSource _ after doc (standing source isSource) place
      refine .somewhere doc behind fun child member => ?_
      exact driven.raise child member _ _ after (standing child member) behind (least child member)

/-! ## Looking at a document -/

/-- The weight of several children together. -/
def weightOf (weights : Handle → Nat) (children : List Handle) : Nat := (children.map weights).sum

theorem weight_le {child : Handle} (member : child ∈ children) :
    weights child ≤ weightOf weights children :=
  List.single_le_sum (fun _ _ => Nat.zero_le _) _ (List.mem_map_of_mem member)

theorem weightOf_le {handles : List Handle} (part : handles.Sublist children) :
    weightOf weights handles ≤ weightOf weights children :=
  (part.map weights).sum_le_sum fun _ _ => Nat.zero_le _

theorem mapM_shown {α : Type} {read : Handle → Except Error α} {good : Handle → α → Prop}
    {handles : List Handle}
    (reads : ∀ child ∈ handles, ∃ value, read child = .ok value ∧ good child value) :
    ∃ values, handles.mapM read = .ok values ∧ List.Forall₂ good handles values := by
  induction handles with
  | nil => exact ⟨[], rfl, .nil⟩
  | cons first handles induction =>
      obtain ⟨⟨value, known, isGood⟩, later⟩ := List.forall_mem_cons.mp reads
      obtain ⟨values, same, all⟩ := induction later
      refine ⟨value :: values, ?_, .cons isGood all⟩
      rw [List.mapM_cons, known, same]
      rfl

theorem standing_shown {α : Type} {forest : Forest} {doc : DocId}
    {read : Handle → Except Error α} {good : Handle → α → Prop}
    (reads : ∀ child ∈ children, forest.hasMatch child doc = true →
      ∃ value, read child = .ok value ∧ good child value) :
    ∃ values, (forest.standing children doc).mapM read = .ok values ∧
      List.Forall₂ good (forest.standing children doc) values := by
  apply mapM_shown
  intro child standing
  obtain ⟨member, here⟩ := List.mem_filter.mp standing
  exact reads child member here

theorem flatten_le {handles : List Handle} {lists : List (List Extent)}
    (few : List.Forall₂ (fun child list => list.length ≤ weights child) handles lists) :
    lists.flatten.length ≤ weightOf weights handles := by
  induction few with
  | nil => exact Nat.le_refl _
  | cons here _ induction =>
      rw [List.flatten_cons, List.length_append, weightOf, List.map_cons, List.sum_cons]
      exact Nat.add_le_add here induction

theorem total_pos {handles : List Handle} {counts : List Nat}
    (light : ∀ child ∈ handles, weights child < 4294967296) (occupied : counts ≠ [])
    (shown : List.Forall₂ (fun child count => weights child < 4294967296 → 0 < count) handles
      counts) : 0 < total counts := by
  unfold total
  rw [← List.sum_eq_foldl]
  cases shown with
  | nil => exact absurd rfl occupied
  | cons here _ =>
      rw [List.sum_cons]
      exact Nat.add_pos_left (here (light _ List.mem_cons_self)) _

theorem matchOf_whole {doc : DocId} {offered : Capabilities} {weight : Nat} {extents : List Extent}
    {found : Match} (ordered : Extent.WellOrdered extents) (few : extents.length ≤ weight)
    (made : matchOf doc extents = some found) :
    found.doc = doc ∧ found.Whole offered weight := by
  unfold matchOf at made
  obtain ⟨occupied, same⟩ := Option.ite_none_left_eq_some.mp made
  cases same
  have some? : extents ≠ [] := by simpa using occupied
  refine ⟨rfl, fun _ light => ?_, fun _ => ⟨some?, ordered, few⟩⟩
  dsimp only
  rw [storedCount, Nat.mod_eq_of_lt (Nat.lt_of_le_of_lt few light)]
  exact List.length_pos_iff.mpr some?

section Looking

variable {forest : Forest} {doc : DocId}
  (whole : ∀ child ∈ children, Whole (offers child) (weights child) child forest)

include whole

theorem extents_shown (offered : ∀ child ∈ children, (offers child).extents = true)
    {child : Handle} (member : child ∈ children) (here : forest.hasMatch child doc = true) :
    ∃ extents, forest.extents child = .ok extents ∧ extents ≠ [] ∧
      Extent.WellOrdered extents ∧ extents.length ≤ weights child := by
  obtain ⟨found, kept, _, shown⟩ := (whole child member).shows doc (by simpa [hasMatch] using here)
  have offers := offered child member
  exact ⟨found.extents, shown offers, kept.extents offers⟩

theorem count_shown (offered : ∀ child ∈ children, (offers child).count = true)
    {child : Handle} (member : child ∈ children) (here : forest.hasMatch child doc = true) :
    ∃ count, forest.count child = .ok count ∧ (weights child < 4294967296 → 0 < count) := by
  obtain ⟨found, kept, shown, _⟩ := (whole child member).shows doc (by simpa [hasMatch] using here)
  have offers := offered child member
  exact ⟨found.count, shown offers, kept.occurs offers⟩

theorem lists_shown (offered : ∀ child ∈ children, (offers child).extents = true) :
    ∃ lists, children.mapM (fun child =>
        if forest.hasMatch child doc then forest.extents child else pure []) = .ok lists ∧
      List.Forall₂ (fun child list => Extent.WellOrdered list ∧ list.length ≤ weights child)
        children lists := by
  apply mapM_shown
  intro child member
  by_cases here : forest.hasMatch child doc = true
  · obtain ⟨extents, shown, _, kept⟩ := extents_shown whole offered member here
    exact ⟨extents, by rw [if_pos here, shown], kept⟩
  · exact ⟨[], by rw [if_neg here]; rfl, ⟨by simp, .nil⟩, Nat.zero_le _⟩

theorem matchAt_union_whole (offered : ∀ child ∈ children, (offers child).count = true) :
    ∃ looked, forest.matchAt .union children doc = .ok looked ∧ ∀ found, looked = some found →
      found.doc = doc ∧
        found.Whole Combination.union.capabilities (weightOf weights children) := by
  obtain ⟨counts, read, shown⟩ := standing_shown fun child member here =>
    count_shown whole offered member here
  unfold matchAt
  dsimp only
  rw [read, Step.ok_bind]
  refine ⟨_, rfl, fun found made => ?_⟩
  obtain ⟨occupied, same⟩ := Option.ite_none_left_eq_some.mp made
  cases same
  refine ⟨rfl, fun _ light => ?_, fun impossible => (nomatch impossible)⟩
  have some? := total_pos (fun child standing => Nat.lt_of_le_of_lt
    (weight_le (List.mem_filter.mp standing).1) light) (by simpa using occupied) shown
  dsimp only [maxCount]
  omega

theorem matchAt_synonym_whole (offered : ∀ child ∈ children, (offers child).extents = true) :
    ∃ looked, forest.matchAt .synonym children doc = .ok looked ∧ ∀ found, looked = some found →
      found.doc = doc ∧
        found.Whole Combination.synonym.capabilities (weightOf weights children) := by
  obtain ⟨lists, read, shown⟩ := standing_shown fun child member here =>
    extents_shown whole offered member here
  unfold matchAt
  dsimp only
  rw [read, Step.ok_bind]
  refine ⟨_, rfl, fun found made => ?_⟩
  have few := (flatten_le (shown.imp fun _ _ kept => kept.2.2)).trans
    (weightOf_le List.filter_sublist)
  have merged := length_eraseReps_le (Extent.sort lists.flatten)
  rw [Extent.sort, List.length_mergeSort] at merged
  refine matchOf_whole (Extent.merged_wellOrdered ?_) (merged.trans few) made
  intro extent member
  obtain ⟨list, isList, inside⟩ := List.mem_flatten.mp member
  obtain ⟨_, _, _, ordered, _⟩ := Window.exists_related shown.flip isList
  exact ordered.forward extent inside

theorem matchAt_window_whole (offered : ∀ child ∈ children, (offers child).extents = true)
    (order : Window.Order) (width : Nat) :
    ∃ looked, forest.matchAt (.window order width) children doc = .ok looked ∧
      ∀ found, looked = some found → found.doc = doc ∧
        found.Whole (Combination.window order width).capabilities (weightOf weights children) := by
  obtain ⟨lists, read, shown⟩ := lists_shown whole offered
  have ordered : ∀ list ∈ lists, Extent.WellOrdered list := by
    intro list isList
    obtain ⟨_, _, ordered, _⟩ := Window.exists_related shown.flip isList
    exact ordered
  obtain ⟨windows, searched, kept⟩ := Window.find_ok order width ordered
  have few := (Window.length_find_le ordered searched).trans
    (flatten_le (shown.imp fun _ _ kept => kept.2))
  unfold matchAt
  dsimp only
  rw [read, Step.ok_bind, searched, Step.ok_bind]
  exact ⟨_, rfl, fun found made => matchOf_whole kept few made⟩

/-- What a combination makes of its children in a document is whole. -/
theorem matchAt_whole {combination : Combination}
    (offered : ∀ child ∈ children, (offers child).covers combination.needs = true) :
    ∃ looked, forest.matchAt combination children doc = .ok looked ∧ ∀ found, looked = some found →
      found.doc = doc ∧ found.Whole combination.capabilities (weightOf weights children) := by
  have counts (needs : combination.needs.count = true) :
      ∀ child ∈ children, (offers child).count = true :=
    fun child member => Capabilities.covers_count (offered child member) needs
  have extents (needs : combination.needs.extents = true) :
      ∀ child ∈ children, (offers child).extents = true :=
    fun child member => Capabilities.covers_extents (offered child member) needs
  cases combination with
  | conjunction =>
      refine ⟨_, rfl, fun found made => ?_⟩
      obtain ⟨_, same⟩ := Option.ite_none_right_eq_some.mp made
      cases same
      exact ⟨rfl, fun _ _ => Nat.one_pos, fun impossible => (nomatch impossible)⟩
  | combine =>
      refine ⟨_, rfl, fun found made => ?_⟩
      obtain ⟨_, same⟩ := Option.ite_none_left_eq_some.mp made
      cases same
      exact ⟨rfl, fun impossible => (nomatch impossible), fun impossible => (nomatch impossible)⟩
  | union => exact matchAt_union_whole whole (counts rfl)
  | synonym => exact matchAt_synonym_whole whole (extents rfl)
  | window order width => exact matchAt_window_whole whole (extents rfl) order width

end Looking

/-! ## Seeking -/

/-- Where children stand behind a match of a combination, or wherever else it ended. -/
structure Sought (children : List Handle) (stands : Handle → Nat → Forest → Prop)
    (offered : Capabilities) (weight : Nat) (target : DocId) (forest : Forest)
    (next : Option Match) : Prop where
  standing : ∀ child ∈ children, ∃ floor, stands child floor forest ∧
    ∀ found, next = some found → floor ≤ found.doc.val
  behind : ∀ found, next = some found → target ≤ found.doc
  whole : ∀ found, next = some found → found.Whole offered weight

theorem sought_none {offered : Capabilities} {weight : Nat} {target : DocId} {forest : Forest}
    (standing : ∀ child ∈ children, ∃ floor, stands child floor forest) :
    Sought children stands offered weight target forest none := by
  refine ⟨fun child member => ?_, fun _ impossible => (nomatch impossible),
    fun _ impossible => (nomatch impossible)⟩
  obtain ⟨floor, stays⟩ := standing child member
  exact ⟨floor, stays, fun _ impossible => (nomatch impossible)⟩

theorem sought_some {offered : Capabilities} {weight : Nat} {target : DocId} {forest : Forest}
    {found : Match} (standing : ∀ child ∈ children, stands child found.doc.val forest)
    (behind : target ≤ found.doc) (whole : found.Whole offered weight) :
    Sought children stands offered weight target forest (some found) := by
  constructor
  · intro child member
    refine ⟨_, standing child member, ?_⟩
    rintro _ ⟨⟩
    exact Nat.le_refl _
  · rintro _ ⟨⟩
    exact behind
  · rintro _ ⟨⟩
    exact whole

theorem Sought.lower {offered : Capabilities} {weight : Nat} {target next : DocId}
    {forest : Forest} {found : Option Match}
    (sought : Sought children stands offered weight next forest found) (below : target ≤ next) :
    Sought children stands offered weight target forest found :=
  { sought with behind := fun other same => Nat.le_trans below (sought.behind other same) }

/-- Seeking ends at or behind its target, if no child fails. -/
theorem seek_ends (driven : Driven move children offers weights stands frame fails)
    {combination : Combination}
    (offered : ∀ child ∈ children, (offers child).covers combination.needs = true)
    {target : DocId} {forest : Forest} (ready : Ready children stands target.val forest) :
    (seek move combination children target).Ends forest
      (fun next after => frame forest after ∧
        Sought children stands combination.capabilities (weightOf weights children) target after
          next)
      fails := by
  -- Each round looks at a later document, so there are fewer left above it.
  induction measure : target.above using Nat.strongRecOn generalizing target forest with
  | ind above induction =>
      rw [seek]
      apply (locate_ends driven combination ready).bind
      rintro located middle ⟨framed, brought⟩
      cases brought with
      | nowhere standing => exact Step.ends_done rfl ⟨framed, sought_none standing⟩
      | somewhere doc behind standing =>
          obtain ⟨looked, same, kept⟩ := @matchAt_whole children offers weights middle doc
            (fun child member => driven.whole child member _ _ (standing child member)) _ offered
          dsimp only
          apply Step.Ends.behind (Step.get_run middle)
          apply Step.Ends.behind (Step.ofExcept_run same middle)
          cases looked with
          | some found =>
              obtain ⟨rfl, whole⟩ := kept found rfl
              exact Step.ends_done rfl ⟨framed, sought_some standing behind whole⟩
          | none =>
              have stays : ∀ child ∈ children, ∃ floor, stands child floor middle :=
                fun child member => ⟨_, standing child member⟩
              dsimp only
              cases ahead : doc.next? with
              | none => exact Step.ends_done rfl ⟨framed, sought_none stays⟩
              | some next =>
                  dsimp only
                  have step := DocId.next?_eq_some.mp ahead
                  have further : target < next := by
                    have reached := DocId.le_iff.mp behind
                    rw [DocId.lt_iff]
                    omega
                  rw [if_pos further]
                  have readyNext : Ready children stands next.val middle :=
                    fun child member => ⟨doc.val, by omega, standing child member⟩
                  refine (induction next.above (measure ▸ DocId.above_lt_above further)
                    readyNext rfl).imp ?_ (fun _ => id)
                  rintro found after ⟨framedRest, sought⟩
                  exact ⟨driven.trans _ _ _ framed framedRest,
                    sought.lower (Nat.le_of_lt further)⟩

end Forest

end Concordance
