import Concordance.Compile.Registry
import Concordance.Proofs.Cursor.Motion
import Concordance.Proofs.Index.Opening

/-!
# Growing a forest

Building a cursor adds its tree behind the cursors that are there already.  The
new root tracks its meaning from the first document on, and what stood in the
forest before is left alone.
-/

namespace Concordance

/-- What a combination asks of the queries that it is built over. -/
structure Combination.Admits (combination : Combination) (children : List Meaning) : Prop where
  occupied : children ≠ []
  offered : ∀ child ∈ children, child.capabilities.covers combination.needs = true

/-- A feature is built over one query that counts. -/
structure Feature.Admits (children : List Meaning) : Prop where
  only : children.length = 1
  offered : ∀ child ∈ children, child.capabilities.covers Capabilities.onlyCount = true

namespace Forest

/-- Every cursor of a forest is where it was. -/
structure Kept (before after : Forest) : Prop where
  size : before.cursors.size ≤ after.cursors.size
  same : ∀ place : Handle, place.index < before.cursors.size →
    after.cursor place = before.cursor place

/-- A tree with a meaning was built behind what a forest held before. -/
structure Grown (meaning : Meaning) (before : Forest) (handle : Handle) (after : Forest) :
    Prop where
  tracks : Tracks after meaning before.cursors.size handle 0
  kept : Kept before after

theorem Kept.refl (forest : Forest) : Kept forest forest := ⟨Nat.le_refl _, fun _ _ => rfl⟩

theorem Kept.trans {first second third : Forest} (here : Kept first second)
    (next : Kept second third) : Kept first third :=
  ⟨Nat.le_trans here.size next.size, fun place inside =>
    (next.same place (Nat.lt_of_lt_of_le inside here.size)).trans (here.same place inside)⟩

theorem Kept.outside {before middle after : Forest} {stop : Nat} (kept : Kept before middle)
    (outside : Outside before.cursors.size stop middle after) : Kept before after :=
  ⟨Nat.le_trans kept.size (Nat.le_of_eq outside.size.symm), fun place inside =>
    (outside.same place (.inl inside)).trans (kept.same place inside)⟩

/-- A tree is where it was when cursors are added. -/
theorem Tracks.kept {before after : Forest} {meaning : Meaning} {start floor : Nat}
    {handle : Handle} (tracks : Tracks before meaning start handle floor)
    (kept : Kept before after) : Tracks after meaning start handle floor :=
  tracks.congr kept.size fun place _ upTo =>
    kept.same place (Nat.lt_of_le_of_lt upTo tracks.bound)

/-! ## Adding one cursor -/

/-- The forest with a cursor behind the others. -/
def push (forest : Forest) (cursor : Cursor) : Forest := ⟨forest.cursors.push cursor⟩

theorem add_run (cursor : Cursor) (forest : Forest) :
    add cursor forest = .ok ⟨forest.cursors.size⟩ (forest.push cursor) := rfl

theorem size_push (forest : Forest) (cursor : Cursor) :
    (forest.push cursor).cursors.size = forest.cursors.size + 1 := Array.size_push cursor

theorem lt_size_push (forest : Forest) (cursor : Cursor) :
    forest.cursors.size < (forest.push cursor).cursors.size := by
  rw [size_push]
  exact Nat.lt_succ_self _

theorem cursor_push_self (forest : Forest) (cursor : Cursor) :
    (forest.push cursor).cursor ⟨forest.cursors.size⟩ = cursor := by
  simp [push, Forest.cursor]

theorem cursor_push_ne {forest : Forest} {other : Handle}
    (different : other.index ≠ forest.cursors.size) (cursor : Cursor) :
    (forest.push cursor).cursor other = forest.cursor other := by
  simp [push, Forest.cursor, Array.getElem?_push, different]

theorem kept_push (forest : Forest) (cursor : Cursor) : Kept forest (forest.push cursor) := by
  refine ⟨by rw [size_push]; exact Nat.le_succ _, fun place inside => ?_⟩
  simp [push, Forest.cursor, Array.getD, inside, Nat.lt_succ_of_lt inside, Array.getElem_push_lt]

theorem grown_null (forest : Forest) (key : String) :
    Grown .absent forest ⟨forest.cursors.size⟩ (forest.push (.null key)) :=
  ⟨.null (Nat.le_refl _) (lt_size_push forest _)
    (cursor_push_self forest _), kept_push forest _⟩

theorem grown_leaf (forest : Forest) {interval : Nat} {withExtents : Bool}
    {postings : List Posting} {leaf : Leaf} (stands : leaf.At interval withExtents postings 0) :
    Grown (.source postings withExtents) forest ⟨forest.cursors.size⟩
      (forest.push (.leaf leaf)) :=
  ⟨.leaf (Nat.le_refl _) (lt_size_push forest _)
    (cursor_push_self forest _) stands, kept_push forest _⟩

theorem addLeaf_run {key : Key} {block : List UInt8} {withExtents : Bool} {leaf : Leaf}
    (opened : Leaf.open? key block withExtents = .ok leaf) (forest : Forest) :
    addLeaf key block withExtents forest =
      .ok ⟨forest.cursors.size⟩ (forest.push (.leaf leaf)) := by
  unfold addLeaf
  rw [Step.bind_ok _ (Step.ofExcept_run opened forest)]
  exact add_run (.leaf leaf) forest

/-- A leaf over the block of some postings is a source of them. -/
theorem addLeaf_grown {interval : Nat} {postings : List Posting}
    (stored : Block.Stored interval postings) (key : Key) (withExtents : Bool) (forest : Forest) :
    ∃ after, addLeaf key (Block.image interval postings) withExtents forest =
        .ok ⟨forest.cursors.size⟩ after ∧
      Grown (.source postings withExtents) forest ⟨forest.cursors.size⟩ after := by
  obtain ⟨leaf, opened, stands⟩ := Leaf.open?_at key stored withExtents
  exact ⟨_, addLeaf_run opened forest, grown_leaf forest stands⟩

theorem addSource?_missing {index : Index} {key : Key} (missing : index.block? key = .ok none)
    (withExtents : Bool) (forest : Forest) :
    addSource? index key withExtents forest = .ok none forest := by
  unfold addSource?
  rw [Step.bind_ok _ (Step.ofExcept_run missing forest)]
  rfl

theorem addSource?_held {index : Index} {key : Key} {block : List UInt8}
    (held : index.block? key = .ok (some block)) {withExtents : Bool} {forest after : Forest}
    {handle : Handle} (added : addLeaf key block withExtents forest = .ok handle after) :
    addSource? index key withExtents forest = .ok (some handle) after := by
  unfold addSource?
  rw [Step.bind_ok _ (Step.ofExcept_run held forest)]
  dsimp only
  rw [Step.bind_ok _ added]
  rfl

/-- A source is a leaf over the postings of its key. -/
theorem addSource?_grown {index : Index} {interval : Nat} {contents : Contents}
    (serves : index.Serves interval contents) (key : Key) (withExtents : Bool) (forest : Forest) :
    match contents key with
    | some postings => ∃ after, addSource? index key withExtents forest =
          .ok (some ⟨forest.cursors.size⟩) after ∧
        Grown (.source postings withExtents) forest ⟨forest.cursors.size⟩ after
    | none => addSource? index key withExtents forest = .ok none forest := by
  cases held : contents key with
  | none => exact addSource?_missing (serves.missing key held) withExtents forest
  | some postings =>
      obtain ⟨stored, block⟩ := serves.present key postings held
      obtain ⟨after, added, grown⟩ := addLeaf_grown stored key withExtents forest
      exact ⟨after, addSource?_held block added, grown⟩

/-! ## Adding a parent -/

/-- The trees of several children stand behind what a forest held before. -/
structure GrownAll (children : List Meaning) (before : Forest) (handles : List Handle)
    (after : Forest) (meanings : Handle → Meaning) (starts : Handle → Nat) : Prop where
  meant : handles.map meanings = children
  tracks : ∀ child ∈ handles, Tracks after (meanings child) (starts child) child 0
  behind : ∀ child ∈ handles, before.cursors.size ≤ starts child
  apart : ∀ first ∈ handles, ∀ second ∈ handles,
    first = second ∨ first.index < starts second ∨ second.index < starts first
  kept : Kept before after

theorem grownAll_nil (forest : Forest) :
    GrownAll [] forest [] forest (fun _ => .absent) (fun _ => 0) :=
  ⟨rfl, fun _ impossible => (nomatch impossible), fun _ impossible => (nomatch impossible),
    fun _ impossible => (nomatch impossible), Kept.refl forest⟩

/-- A tree behind a place is none of those that end before it. -/
theorem clear_of_bounds {handles : List Handle} {handle : Handle} {place : Nat}
    (bounds : ∀ child ∈ handles, child.index < place) (behind : place ≤ handle.index) :
    ∀ child ∈ handles, child.index < place ∧ child ≠ handle := by
  intro child member
  refine ⟨bounds child member, ?_⟩
  rintro rfl
  exact absurd (bounds child member) (Nat.not_lt.mpr behind)

/-- What is said of one more child stands behind what is said of the others. -/
theorem map_snoc {α : Type} {handles : List Handle} {handle : Handle} {place : Nat}
    (clear : ∀ child ∈ handles, child.index < place ∧ child ≠ handle) (view : Handle → α)
    (value : α) :
    (handles ++ [handle]).map (fun other => if other = handle then value else view other) =
      handles.map view ++ [value] := by
  rw [List.map_append, List.map_singleton, if_pos rfl]
  congr 1
  apply List.map_congr_left
  intro child member
  rw [if_neg (clear child member).2]

/-- What holds of the trees of some children and of one more holds of them all. -/
theorem forall_mem_snoc {α : Type} {handles : List Handle} {handle : Handle} {place : Nat}
    (clear : ∀ child ∈ handles, child.index < place ∧ child ≠ handle)
    (view : Handle → α) (value : α) (holds : α → Nat → Handle → Prop) {starts : Handle → Nat}
    (earlier : ∀ child ∈ handles, holds (view child) (starts child) child)
    (last : holds value place handle) :
    ∀ child ∈ handles ++ [handle],
      holds (if child = handle then value else view child)
        (if child = handle then place else starts child) child := by
  refine List.forall_mem_append.mpr ⟨fun child member => ?_, List.forall_mem_singleton.mpr ?_⟩
  · rw [if_neg (clear child member).2, if_neg (clear child member).2]
    exact earlier child member
  · rw [if_pos rfl, if_pos rfl]
    exact last

/-- A tree behind some others, which stand apart, stands apart from them. -/
theorem apart_snoc {handles : List Handle} {handle : Handle} {starts : Handle → Nat} {place : Nat}
    (clear : ∀ child ∈ handles, child.index < place ∧ child ≠ handle)
    (apart : ∀ first ∈ handles, ∀ second ∈ handles,
      first = second ∨ first.index < starts second ∨ second.index < starts first) :
    let later := fun other => if other = handle then place else starts other
    ∀ first ∈ handles ++ [handle], ∀ second ∈ handles ++ [handle],
      first = second ∨ first.index < later second ∨ second.index < later first := by
  intro later first isFirst second isSecond
  have last : later handle = place := if_pos rfl
  have earlier : ∀ child ∈ handles, later child = starts child :=
    fun child member => if_neg (clear child member).2
  rcases List.mem_append.mp isFirst with inFirst | lastFirst <;>
    rcases List.mem_append.mp isSecond with inSecond | lastSecond
  · rw [earlier first inFirst, earlier second inSecond]
    exact apart first inFirst second inSecond
  · rw [List.mem_singleton.mp lastSecond, last]
    exact .inr (.inl (clear first inFirst).1)
  · rw [List.mem_singleton.mp lastFirst, last]
    exact .inr (.inr (clear second inSecond).1)
  · exact .inl ((List.mem_singleton.mp lastFirst).trans (List.mem_singleton.mp lastSecond).symm)

/-- One more child is a tree of its own behind the trees of the others. -/
theorem GrownAll.snoc {before middle after : Forest} {children : List Meaning} {handle : Handle}
    {meaning : Meaning} {handles : List Handle} {meanings : Handle → Meaning}
    {starts : Handle → Nat} (grown : GrownAll children before handles middle meanings starts)
    (tree : Grown meaning middle handle after) :
    GrownAll (children ++ [meaning]) before (handles ++ [handle]) after
      (fun other => if other = handle then meaning else meanings other)
      (fun other => if other = handle then middle.cursors.size else starts other) := by
  have clear := clear_of_bounds (fun child member => (grown.tracks child member).bound)
    tree.tracks.start_le
  constructor
  · rw [map_snoc clear, grown.meant]
  · exact forall_mem_snoc clear meanings meaning
      (fun meaning start child => Tracks after meaning start child 0)
      (fun child member => (grown.tracks child member).kept tree.kept) tree.tracks
  · exact forall_mem_snoc clear meanings meaning (fun _ start _ => before.cursors.size ≤ start)
      grown.behind grown.kept.size
  · exact apart_snoc clear grown.apart
  · exact grown.kept.trans tree.kept

/-- One more child can be a tree that stands already. -/
theorem GrownAll.again {before after : Forest} {children : List Meaning} {handle : Handle}
    {handles : List Handle} {meanings : Handle → Meaning} {starts : Handle → Nat}
    (grown : GrownAll children before handles after meanings starts) (member : handle ∈ handles) :
    GrownAll (children ++ [meanings handle]) before (handles ++ [handle]) after meanings
      starts := by
  have among : ∀ child ∈ handles ++ [handle], child ∈ handles :=
    List.forall_mem_append.mpr ⟨fun _ => id, List.forall_mem_singleton.mpr member⟩
  constructor
  · rw [List.map_append, grown.meant, List.map_singleton]
  · exact fun child isChild => grown.tracks child (among child isChild)
  · exact fun child isChild => grown.behind child (among child isChild)
  · exact fun first isFirst second isSecond =>
      grown.apart first (among first isFirst) second (among second isSecond)
  · exact grown.kept

theorem require_eq_ok {forest : Forest} {operator : String} {needed : Capabilities}
    {handles : List Handle} :
    forest.require operator needed handles = .ok () ↔
      ∀ child ∈ handles, (forest.capabilities child).covers needed = true := by
  induction handles with
  | nil => exact ⟨fun _ _ impossible => (nomatch impossible), fun _ => rfl⟩
  | cons first handles induction =>
      rw [require, List.forall_mem_cons]
      by_cases offers : (forest.capabilities first).covers needed = true
      · rw [if_pos offers, induction]
        exact (and_iff_right offers).symm
      · rw [if_neg offers]
        exact ⟨fun impossible => (nomatch impossible), fun allowed => absurd allowed.1 offers⟩

theorem checkChildren_eq_ok {forest : Forest} {combination : Combination} {handles : List Handle} :
    forest.checkChildren combination handles = .ok () ↔ handles ≠ [] ∧
      ∀ child ∈ handles, (forest.capabilities child).covers combination.needs = true := by
  cases handles with
  | nil => exact ⟨fun impossible => (nomatch impossible), fun allowed => absurd rfl allowed.1⟩
  | cons first handles =>
      rw [← @require_eq_ok _ combination.operatorName]
      exact (and_iff_right (List.cons_ne_nil _ _)).symm

theorem Tracks.capabilities {forest : Forest} {meaning : Meaning} {start floor : Nat}
    {handle : Handle} (tracks : Tracks forest meaning start handle floor) :
    forest.capabilities handle = meaning.capabilities := by
  obtain ⟨_, _, shows⟩ := tracks.shows
  exact shows.capabilities

variable {before middle after : Forest} {children : List Meaning} {handles : List Handle}
  {handle : Handle} {key : String} {meanings : Handle → Meaning} {starts : Handle → Nat}

theorem GrownAll.length_eq (grown : GrownAll children before handles middle meanings starts) :
    handles.length = children.length := by
  rw [← grown.meant, List.length_map]

theorem GrownAll.offers_iff (grown : GrownAll children before handles middle meanings starts)
    {needed : Capabilities} :
    (∀ child ∈ handles, (middle.capabilities child).covers needed = true) ↔
      ∀ child ∈ children, child.capabilities.covers needed = true := by
  rw [← grown.meant, List.forall_mem_map]
  refine forall₂_congr fun child member => ?_
  rw [(grown.tracks child member).capabilities]

/-- A combination is built over children that offer what it needs. -/
theorem addComposite_grown {combination : Combination}
    (grown : GrownAll children before handles middle meanings starts)
    (countable : (combination.meaning children).Countable)
    (allowed : middle.checkChildren combination handles = .ok ()) :
    ∃ handle after, addComposite key combination handles middle = .ok handle after ∧
      Grown (combination.meaning children) before handle after := by
  have offered := (checkChildren_eq_ok.mp allowed).2
  have family : Family combination handles meanings starts before.cursors.size
      middle.cursors.size := by
    refine ⟨fun child member => (grown.tracks child member).sound, ?_, ?_, ?_, grown.apart⟩
    · intro child member
      rw [← (grown.tracks child member).capabilities]
      exact offered child member
    · rw [grown.meant]
      exact countable
    · exact fun child member => ⟨grown.behind child member, (grown.tracks child member).bound⟩
  have ready : ∀ child ∈ handles, ∃ floor, floor ≤ DocId.zero.val ∧
      Tracks middle (meanings child) (starts child) child floor :=
    fun child member => ⟨0, Nat.le_refl _, grown.tracks child member⟩
  obtain ⟨first, sought, run, outside, isFirst, tracks⟩ :=
    seek_tracks (moveTo_moves middle.cursors.size) family ready
  let parent : Composite := ⟨key, combination, handles, first⟩
  have pushed := kept_push sought (.composite parent)
  refine ⟨⟨sought.cursors.size⟩, sought.push (.composite parent), ?_, ?_,
    (grown.kept.outside outside).trans pushed⟩
  · unfold addComposite
    rw [Step.bind_ok _ (Step.get_run _), Step.bind_ok _ (Step.ofExcept_run allowed _),
      Step.bind_ok _ run]
    exact add_run _ _
  · rw [← grown.meant]
    refine @Tracks.composite _ _ _ _ parent meanings starts ?_ (lt_size_push sought _)
      (cursor_push_self sought _) (outside.size ▸ family) isFirst ?_
    · exact Nat.le_trans grown.kept.size (Nat.le_of_eq outside.size.symm)
    · exact fun found same child member => (tracks found same child member).kept pushed

theorem addComposite_settles {combination : Combination}
    (grown : GrownAll children before handles middle meanings starts)
    (countable : (combination.meaning children).Countable) :
    (addComposite key combination handles).Settles middle (combination.Admits children)
      (Grown (combination.meaning children) before) (fun after => after = middle) := by
  have occupied : handles ≠ [] ↔ children ≠ [] := by
    rw [← grown.meant, ne_eq, ne_eq, List.map_eq_nil_iff]
  cases checked : middle.checkChildren combination handles with
  | ok =>
      obtain ⟨some, offered⟩ := checkChildren_eq_ok.mp checked
      obtain ⟨handle, after, run, tree⟩ :=
        @addComposite_grown _ _ _ _ key _ _ _ grown countable checked
      exact Step.settles_done run ⟨occupied.mp some, grown.offers_iff.mp offered⟩ tree
  | error cause =>
      refine @Step.settles_failed _ _ _ _ _ _ _ _ cause ?_ ?_ rfl
      · unfold addComposite
        rw [Step.bind_ok _ (Step.get_run _), checked]
        rfl
      · intro admits
        have allowed := checkChildren_eq_ok.mpr
          ⟨occupied.mpr admits.occupied, grown.offers_iff.mpr admits.offered⟩
        rw [checked] at allowed
        cases allowed

theorem addFeature_settles {estimator : EstimatorId} {scorer : String}
    (grown : GrownAll children before handles middle meanings starts) :
    (addFeature key handles estimator scorer).Settles middle (Feature.Admits children)
      (Grown (children.headD .absent).feature before) (fun after => after = middle) := by
  have length := grown.length_eq
  unfold addFeature
  split
  · rename_i child
    cases checked : middle.require "feature" Capabilities.onlyCount [child] with
    | ok =>
        have offered := require_eq_ok.mp checked
        have only := List.mem_cons_self (a := child) (l := [])
        have tracks := grown.tracks child only
        have counts : (meanings child).capabilities.count = true := by
          rw [← tracks.capabilities]
          exact Capabilities.covers_count (offered child only) rfl
        have pushed := kept_push middle (.feature ⟨key, child, estimator, scorer⟩)
        have tree : Grown (children.headD .absent).feature before ⟨middle.cursors.size⟩
            (middle.push (.feature ⟨key, child, estimator, scorer⟩)) := by
          refine ⟨?_, grown.kept.trans pushed⟩
          rw [← grown.meant, List.map_cons, List.headD_cons]
          exact .feature (lt_size_push middle _) (cursor_push_self middle _) tracks.bound counts
            ((tracks.kept pushed).widen (grown.behind child only))
        refine Step.settles_done ?_ ⟨length.symm, grown.offers_iff.mp offered⟩ tree
        rw [Step.bind_ok _ (Step.get_run _), Step.bind_ok _ (Step.ofExcept_run checked _)]
        exact add_run _ _
    | error cause =>
        refine @Step.settles_failed _ _ _ _ _ _ _ _ cause ?_ ?_ rfl
        · rw [Step.bind_ok _ (Step.get_run _), checked]
          rfl
        · intro admits
          have allowed := (@require_eq_ok _ "feature").mpr (grown.offers_iff.mpr admits.offered)
          rw [checked] at allowed
          cases allowed
  · rename_i others
    refine Step.settles_failed rfl ?_ rfl
    intro admits
    obtain ⟨child, same⟩ := List.length_eq_one_iff.mp (length.trans admits.only)
    exact others child same

end Forest

end Concordance
