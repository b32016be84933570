import Concordance.Proofs.Cursor.Calls

/-!
# Unfolding cursors

A cursor and those that it is built over can be unfolded to a tree, in which a cursor that
has two places among the children of one parent is written down twice.  What a cursor shows
is told by its tree, and so is what a combination finds among its children.
-/

namespace Concordance

/-- A cursor with those that it is built over, without the places that they take in a forest
and without the names under which bounds are kept. -/
inductive Unfolded where
  | null (key : String)
  | leaf (leaf : Leaf)
  | composite (key : String) (combination : Combination) (current : Option Match)
      (children : List Unfolded)
  | feature (key scorer : String) (child : Unfolded)

/-- A cursor without its children. -/
def Cursor.bare : Cursor → Cursor
  | null key => .null key
  | leaf source => .leaf source
  | composite parent => .composite { parent with children := [] }
  | feature wrapper => .feature { wrapper with child := ⟨0⟩, estimator := ⟨0⟩ }

namespace Cursor

@[simp]
theorem key_bare (cursor : Cursor) : cursor.bare.key = cursor.key := by cases cursor <;> rfl

@[simp]
theorem capabilities_bare (cursor : Cursor) : cursor.bare.capabilities = cursor.capabilities := by
  cases cursor <;> rfl

@[simp]
theorem ownPosition_bare (cursor : Cursor) : cursor.bare.ownPosition = cursor.ownPosition := by
  cases cursor <;> rfl

@[simp]
theorem count_bare (cursor : Cursor) : cursor.bare.count = cursor.count := by cases cursor <;> rfl

@[simp]
theorem extents_bare (cursor : Cursor) : cursor.bare.extents = cursor.extents := by
  cases cursor <;> rfl

end Cursor

namespace Unfolded

/-- The root of a tree. -/
def root : Unfolded → Cursor
  | null key => .null key
  | leaf source => .leaf source
  | composite key combination current _ => .composite ⟨key, combination, [], current⟩
  | feature key scorer _ => .feature ⟨key, ⟨0⟩, ⟨0⟩, scorer⟩

/-- The cursor whose documents a tree shows. -/
def subject : Unfolded → Cursor
  | feature _ _ child => child.root
  | null key => .null key
  | leaf source => .leaf source
  | composite key combination current _ => .composite ⟨key, combination, [], current⟩

end Unfolded

namespace Forest

/-- The tree of a cursor whose descendants are less than `depth` levels deep. -/
def unfoldWithin : Nat → Forest → Handle → Unfolded
  | 0, _, _ => .null ""
  | depth + 1, forest, handle =>
    match forest.cursor handle with
    | .null key => .null key
    | .leaf leaf => .leaf leaf
    | .composite parent =>
      .composite parent.key parent.combination parent.current
        (parent.children.map (unfoldWithin depth forest))
    | .feature wrapper =>
      .feature wrapper.key wrapper.scorer (unfoldWithin depth forest wrapper.child)

/-- The tree of a cursor. -/
def unfold (forest : Forest) (handle : Handle) : Unfolded :=
  unfoldWithin (handle.index + 1) forest handle

variable {law : Leaf.Law} {forest other : Forest} {offered : Capabilities}
  {weight start floor : Nat} {handle : Handle}

/-! ## Trees of cursors in order -/

/-- The tree of a cursor depends on nothing but the stretch in which it stands. -/
theorem Poised.unfoldWithin_eq (poised : Poised law forest offered weight start handle floor)
    (same : ∀ place : Handle, start ≤ place.index → place.index ≤ handle.index →
      other.cursor place = forest.cursor place)
    {depth deeper : Nat} (within : handle.index < depth) (withinOther : handle.index < deeper) :
    unfoldWithin deeper other handle = unfoldWithin depth forest handle := by
  induction poised generalizing depth deeper with
  | null behind _ here =>
      obtain ⟨depth, rfl⟩ := Nat.exists_eq_add_one_of_ne_zero (Nat.ne_zero_of_lt within)
      obtain ⟨deeper, rfl⟩ := Nat.exists_eq_add_one_of_ne_zero (Nat.ne_zero_of_lt withinOther)
      rw [unfoldWithin, unfoldWithin, same _ behind (Nat.le_refl _), here]
  | leaf behind _ here =>
      obtain ⟨depth, rfl⟩ := Nat.exists_eq_add_one_of_ne_zero (Nat.ne_zero_of_lt within)
      obtain ⟨deeper, rfl⟩ := Nat.exists_eq_add_one_of_ne_zero (Nat.ne_zero_of_lt withinOther)
      rw [unfoldWithin, unfoldWithin, same _ behind (Nat.le_refl _), here]
  | feature _ here below _ poised induction =>
      obtain ⟨depth, rfl⟩ := Nat.exists_eq_add_one_of_ne_zero (Nat.ne_zero_of_lt within)
      obtain ⟨deeper, rfl⟩ := Nat.exists_eq_add_one_of_ne_zero (Nat.ne_zero_of_lt withinOther)
      have behind := Nat.le_trans poised.start_le (Nat.le_of_lt below)
      rw [unfoldWithin, unfoldWithin, same _ behind (Nat.le_refl _), here]
      dsimp only
      congr 1
      exact induction (fun place first last => same place first (by omega)) (by omega) (by omega)
  | composite behind _ here siblings _ _ _ _ _ induction =>
      obtain ⟨depth, rfl⟩ := Nat.exists_eq_add_one_of_ne_zero (Nat.ne_zero_of_lt within)
      obtain ⟨deeper, rfl⟩ := Nat.exists_eq_add_one_of_ne_zero (Nat.ne_zero_of_lt withinOther)
      rw [unfoldWithin, unfoldWithin, same _ behind (Nat.le_refl _), here]
      dsimp only
      congr 1
      apply List.map_congr_left
      intro child member
      obtain ⟨first, last⟩ := siblings.inside child member
      exact induction child member (fun place low high => same place (by omega) (by omega))
        (by omega) (by omega)

theorem Poised.unfold_congr (poised : Poised law forest offered weight start handle floor)
    (same : ∀ place : Handle, start ≤ place.index → place.index ≤ handle.index →
      other.cursor place = forest.cursor place) : other.unfold handle = forest.unfold handle :=
  poised.unfoldWithin_eq same (Nat.lt_succ_self _) (Nat.lt_succ_self _)

/-- A tree is the same after changes in a stretch that it does not reach into. -/
theorem Poised.unfold_frame (poised : Poised law forest offered weight start handle floor)
    {lower upper : Nat} (outside : Outside lower upper forest other)
    (apart : handle.index < lower ∨ upper ≤ start) : other.unfold handle = forest.unfold handle :=
  poised.unfold_congr fun place behind before => outside.same place (by omega)

theorem unfold_null {key : String} (here : forest.cursor handle = .null key) :
    forest.unfold handle = .null key := by
  rw [unfold, unfoldWithin, here]

theorem unfold_leaf {leaf : Leaf} (here : forest.cursor handle = .leaf leaf) :
    forest.unfold handle = .leaf leaf := by
  rw [unfold, unfoldWithin, here]

theorem unfold_feature {wrapper : Feature} (here : forest.cursor handle = .feature wrapper)
    (below : wrapper.child.index < handle.index)
    (poised : Poised law forest offered weight start wrapper.child floor) :
    forest.unfold handle =
      .feature wrapper.key wrapper.scorer (forest.unfold wrapper.child) := by
  rw [unfold, unfoldWithin, here]
  dsimp only
  rw [unfold, poised.unfoldWithin_eq (fun _ _ _ => rfl) (Nat.lt_succ_self _) below]

theorem unfold_composite {parent : Composite} {offers : Handle → Capabilities}
    {weights starts floors : Handle → Nat} (here : forest.cursor handle = .composite parent)
    (below : ∀ child ∈ parent.children, child.index < handle.index)
    (poised : ∀ child ∈ parent.children,
      Poised law forest (offers child) (weights child) (starts child) child (floors child)) :
    forest.unfold handle = .composite parent.key parent.combination parent.current
      (parent.children.map forest.unfold) := by
  rw [unfold, unfoldWithin, here]
  dsimp only
  congr 1
  apply List.map_congr_left
  intro child member
  exact (poised child member).unfoldWithin_eq (fun _ _ _ => rfl) (Nat.lt_succ_self _)
    (below child member)

/-! ## What a tree shows -/

theorem root_unfold (forest : Forest) (handle : Handle) :
    (forest.unfold handle).root = (forest.cursor handle).bare := by
  rw [unfold, unfoldWithin]
  cases forest.cursor handle <;> rfl

theorem Poised.subject_unfold (poised : Poised law forest offered weight start handle floor) :
    (forest.unfold handle).subject = (forest.subject handle).bare := by
  rw [subject]
  cases poised with
  | null _ _ here =>
      rw [unfold_null here, here]
      rfl
  | leaf _ _ here =>
      rw [unfold_leaf here, here]
      rfl
  | feature _ here below _ poised =>
      rw [unfold_feature here below poised, here]
      exact root_unfold _ _
  | composite _ _ here siblings _ _ _ _ poised =>
      rw [unfold_composite here (fun child member => (siblings.inside child member).2) poised, here]
      rfl

/-- Whatever a cursor shows. -/
structure Face where
  done : Bool
  candidate : Except Error DocId
  isMatch : DocId → Bool
  count : Except Error Nat
  extents : Except Error (List Extent)

def face (forest : Forest) (handle : Handle) : Face where
  done := forest.isDone handle
  candidate := forest.candidate handle
  isMatch := forest.hasMatch handle
  count := forest.count handle
  extents := forest.extents handle

section Alike

variable {offers : Capabilities} {bulk begin limit : Nat} {rival : Handle}
  (poised : Poised law forest offered weight start handle floor)
  (rivals : Poised law other offers bulk begin rival limit)
  (same : forest.unfold handle = other.unfold rival)

include same

theorem bare_alike : (forest.cursor handle).bare = (other.cursor rival).bare := by
  rw [← root_unfold, ← root_unfold, same]

theorem capabilities_alike : forest.capabilities handle = other.capabilities rival := by
  rw [capabilities, capabilities, ← Cursor.capabilities_bare, bare_alike same,
    Cursor.capabilities_bare]

theorem key_alike : (forest.cursor handle).key = (other.cursor rival).key := by
  rw [← Cursor.key_bare, bare_alike same, Cursor.key_bare]

theorem count_alike : forest.count handle = other.count rival := by
  rw [count, count, ← Cursor.count_bare, bare_alike same, Cursor.count_bare]

theorem extents_alike : forest.extents handle = other.extents rival := by
  rw [extents, extents, ← Cursor.extents_bare, bare_alike same, Cursor.extents_bare]

include poised rivals

theorem subject_alike : (forest.subject handle).bare = (other.subject rival).bare := by
  rw [← poised.subject_unfold, ← rivals.subject_unfold, same]

theorem position_alike : forest.position handle = other.position rival := by
  rw [position, position, ← Cursor.ownPosition_bare, subject_alike poised rivals same,
    Cursor.ownPosition_bare]

/-- Cursors with one tree show the same. -/
theorem face_alike : forest.face handle = other.face rival := by
  have place := position_alike poised rivals same
  have key : (forest.subject handle).key = (other.subject rival).key := by
    rw [← Cursor.key_bare, subject_alike poised rivals same, Cursor.key_bare]
  unfold face isDone candidate hasMatch
  rw [place, key, count_alike same, extents_alike same]

end Alike

/-! ## Looking at one document -/

/-- Two children that look the same in a document, as far as they are asked. -/
structure Resembles (needed : Capabilities) (doc : DocId) (forest other : Forest)
    (child rival : Handle) : Prop where
  here : forest.hasMatch child doc = other.hasMatch rival doc
  count : needed.count = true → forest.hasMatch child doc = true →
    forest.count child = other.count rival
  extents : needed.extents = true → forest.hasMatch child doc = true →
    forest.extents child = other.extents rival

section Resembling

variable {children rivals : List Handle} {doc : DocId} {needed : Capabilities}

theorem mapM_standing_congr {α : Type} {read readOther : Handle → Except Error α}
    (same : List.Forall₂ (fun child rival =>
      forest.hasMatch child doc = other.hasMatch rival doc ∧
        (forest.hasMatch child doc = true → read child = readOther rival)) children rivals) :
    (forest.standing children doc).mapM read = (other.standing rivals doc).mapM readOther := by
  unfold standing
  induction same with
  | nil => rfl
  | @cons child rival _ _ first _ induction =>
      obtain ⟨here, reads⟩ := first
      rw [List.filter_cons, List.filter_cons, ← here]
      cases stands : forest.hasMatch child doc with
      | false => exact induction
      | true =>
          rw [if_pos rfl, if_pos rfl, List.mapM_cons, List.mapM_cons, reads stands, induction]

theorem isEmpty_standing_congr
    (same : List.Forall₂ (fun child rival =>
      forest.hasMatch child doc = other.hasMatch rival doc) children rivals) :
    (forest.standing children doc).isEmpty = (other.standing rivals doc).isEmpty := by
  unfold standing
  induction same with
  | nil => rfl
  | @cons child rival _ _ here _ induction =>
      rw [List.filter_cons, List.filter_cons, ← here]
      cases forest.hasMatch child doc with
      | false => exact induction
      | true => rfl

theorem all_congr
    (same : List.Forall₂ (fun child rival =>
      forest.hasMatch child doc = other.hasMatch rival doc) children rivals) :
    (children.all fun child => forest.hasMatch child doc) =
      rivals.all fun rival => other.hasMatch rival doc := by
  induction same with
  | nil => rfl
  | cons here _ induction => rw [List.all_cons, List.all_cons, here, induction]

theorem mapM_lists_congr
    (same : List.Forall₂ (fun child rival =>
      forest.hasMatch child doc = other.hasMatch rival doc ∧
        (forest.hasMatch child doc = true → forest.extents child = other.extents rival))
      children rivals) :
    (children.mapM fun child =>
      if forest.hasMatch child doc then forest.extents child else pure []) =
      rivals.mapM fun rival =>
        if other.hasMatch rival doc then other.extents rival else pure [] := by
  induction same with
  | nil => rfl
  | @cons child rival _ _ first _ induction =>
      obtain ⟨here, reads⟩ := first
      rw [List.mapM_cons, List.mapM_cons, induction, ← here]
      cases stands : forest.hasMatch child doc with
      | false => rfl
      | true => rw [reads stands]

/-- What a combination finds in a document depends only on how its children look there. -/
theorem matchAt_congr {combination : Combination}
    (same : List.Forall₂ (Resembles combination.needs doc forest other) children rivals) :
    forest.matchAt combination children doc = other.matchAt combination rivals doc := by
  have here := same.imp fun _ _ resembles => resembles.here
  cases combination with
  | conjunction => simp only [matchAt, all_congr here]
  | combine => simp only [matchAt, isEmpty_standing_congr here]
  | union =>
      have counts := same.imp fun _ _ resembles => And.intro resembles.here (resembles.count rfl)
      simp only [matchAt, mapM_standing_congr counts]
  | synonym =>
      have lists := same.imp fun _ _ resembles => And.intro resembles.here (resembles.extents rfl)
      simp only [matchAt, mapM_standing_congr lists]
  | window order width =>
      have lists := same.imp fun _ _ resembles => And.intro resembles.here (resembles.extents rfl)
      simp only [matchAt, mapM_lists_congr lists]

end Resembling

end Forest

end Concordance
