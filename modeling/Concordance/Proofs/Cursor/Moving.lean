import Concordance.Proofs.Cursor.Tracks

/-!
# Moving a tree of cursors

A cursor that tracks a meaning keeps tracking it wherever it is moved from its
position on.  The depth to which the tree is followed only has to exceed the
place of its root, since children stand before their parents.
-/

namespace Concordance

namespace Forest

/-! ## One move of each kind of cursor -/

section Runs

variable {depth : Nat} {forest : Forest} {handle : Handle} (target : DocId)

theorem moveWithin_null {key : String} (here : forest.cursor handle = .null key) :
    moveWithin (depth + 1) handle target forest = .ok () forest := by
  rw [moveWithin, Step.bind_ok _ (Step.get_run _), here]
  rfl

theorem moveWithin_leaf {leaf : Leaf} (here : forest.cursor handle = .leaf leaf) :
    moveWithin (depth + 1) handle target forest =
      match Leaf.moveTo target leaf with
      | .ok _ after => .ok () (forest.put handle (.leaf after))
      | .error cause after => .error cause (forest.put handle (.leaf after)) := by
  rw [moveWithin, Step.bind_ok _ (Step.get_run _), here]
  dsimp only
  cases Leaf.moveTo target leaf <;> rfl

theorem moveWithin_feature {wrapper : Feature} (here : forest.cursor handle = .feature wrapper) :
    moveWithin (depth + 1) handle target forest =
      moveWithin depth wrapper.child target forest := by
  rw [moveWithin, Step.bind_ok _ (Step.get_run _), here]

theorem moveWithin_seeks {composite : Composite} {found : Match} {target : DocId}
    (here : forest.cursor handle = .composite composite) (shown : composite.current = some found)
    (below : found.doc < target) :
    moveWithin (depth + 1) handle target forest =
      match seek (moveWithin depth) composite.combination composite.children target forest with
      | .ok next after =>
        .ok () (after.put handle (.composite { composite with current := next }))
      | .error cause after => .error cause after := by
  rw [moveWithin, Step.bind_ok _ (Step.get_run _), here]
  dsimp only
  rw [shown]
  dsimp only
  rw [if_pos below, Step.bind_run]
  cases seek (moveWithin depth) composite.combination composite.children target forest <;> rfl

/-- A combination that does not stand below a target stays where it is. -/
theorem moveWithin_run {composite : Composite} {target : DocId}
    (here : forest.cursor handle = .composite composite)
    (stays : ∀ found, composite.current = some found → ¬found.doc < target) :
    moveWithin (depth + 1) handle target forest = .ok () forest := by
  rw [moveWithin, Step.bind_ok _ (Step.get_run _), here]
  dsimp only
  cases shown : composite.current with
  | none => rfl
  | some found =>
      dsimp only
      rw [if_neg (stays found shown)]
      rfl

end Runs

/-- A combination stands below a target, or it is done or stands where the target is reached. -/
theorem below_or_stays (current : Option Match) (target : DocId) :
    (∃ found, current = some found ∧ found.doc < target) ∨
      ∀ found, current = some found → ¬found.doc < target := by
  by_cases below : ∃ found, current = some found ∧ found.doc < target
  · exact .inl below
  · exact .inr fun found shown less => below ⟨found, shown, less⟩

theorem reached_of_stays {current : Option Match} {target : DocId}
    (stays : ∀ found, current = some found → ¬found.doc < target) {doc : DocId}
    (shown : current.map Match.doc = some doc) : target.val ≤ doc.val := by
  obtain ⟨found, same, rfl⟩ := Option.map_eq_some_iff.mp shown
  exact DocId.not_lt.mp (stays found same)

/-! ## Moving a tree -/

/-- What moving does to every tree with its root before some place. -/
def Moves (move : Move) (limit : Nat) : Prop :=
  ∀ (forest : Forest) (meaning : Meaning) (start : Nat) (handle : Handle) (floor : Nat)
    (target : DocId), handle.index < limit → Tracks forest meaning start handle floor →
    floor ≤ target.val →
    ∃ after, move handle target forest = .ok () after ∧
      Tracks after meaning start handle target.val ∧
      Outside start (handle.index + 1) forest after

theorem Moves.mono {move : Move} {limit larger : Nat} (moves : Moves move larger)
    (below : limit ≤ larger) : Moves move limit :=
  fun forest meaning start handle floor target within =>
    moves forest meaning start handle floor target (Nat.lt_of_lt_of_le within below)

section Family

variable {move : Move} {combination : Combination} {children : List Handle}
  {meanings : Handle → Meaning} {starts : Handle → Nat} {start limit : Nat}

/-- A family of trees that can be moved one by one can be moved by their parent. -/
theorem guided_of_moves (moves : Moves move limit)
    (family : Family combination children meanings starts start limit) :
    Guided move children meanings
      (fun child floor forest => Tracks forest (meanings child) (starts child) child floor)
      (Outside start limit) where
  shows _ _ _ _ tracks := tracks.shows
  raise _ _ _ _ _ tracks := tracks.raise
  moves child member floor target forest tracks above := by
    obtain ⟨within, before⟩ := family.inside child member
    obtain ⟨after, moved, there, outside⟩ := moves forest _ _ child floor target before tracks above
    refine ⟨after, moved, there, outside.widen within before, ?_⟩
    intro other isChild different floor standing
    exact standing.frame outside
      (outside_of_apart (family.apart child member other isChild) different)
  refl := Outside.refl start limit
  trans _ _ _ first second := first.trans second

/-- Seeking ends on the first match of the combination, with its children ready to
go on from there. -/
theorem seek_tracks (moves : Moves move limit)
    (family : Family combination children meanings starts start limit) {forest : Forest}
    {target : DocId}
    (ready : ∀ child ∈ children, ∃ floor, floor ≤ target.val ∧
      Tracks forest (meanings child) (starts child) child floor) :
    ∃ next after, seek move combination children target forest = .ok next after ∧
      Outside start limit forest after ∧
      First (combination.meaning (children.map meanings)).found target.val next ∧
      ∀ found, next = some found → ∀ child ∈ children,
        Tracks after (meanings child) (starts child) child found.doc.val :=
  seek_guided (guided_of_moves moves family) family.sound family.offered family.countable ready

end Family

/-- Moving a combination to a target that it stands below. -/
theorem moveWithin_below {depth : Nat} (moves : Moves (moveWithin depth) depth) {forest : Forest}
    {start : Nat} {handle : Handle} {composite : Composite} {meanings : Handle → Meaning}
    {starts : Handle → Nat} {target : DocId} {found : Match} (within : handle.index < depth + 1)
    (behind : start ≤ handle.index) (bound : handle.index < forest.cursors.size)
    (here : forest.cursor handle = .composite composite)
    (family : Family composite.combination composite.children meanings starts start handle.index)
    (shown : composite.current = some found) (below : found.doc < target)
    (tracks : ∀ child ∈ composite.children,
      Tracks forest (meanings child) (starts child) child found.doc.val) :
    ∃ after, moveWithin (depth + 1) handle target forest = .ok () after ∧
      Tracks after (composite.combination.meaning (composite.children.map meanings)) start handle
        target.val ∧
      Outside start (handle.index + 1) forest after := by
  obtain ⟨next, after, run, outside, first, tracksNext⟩ := seek_tracks
    (moves.mono (Nat.le_of_lt_succ within)) family
    fun child member => ⟨found.doc.val, Nat.le_of_lt below, tracks child member⟩
  have boundAfter : handle.index < after.cursors.size := outside.size ▸ bound
  let moved : Composite := { composite with current := next }
  have put := Outside.of_put after (.composite moved) behind (Nat.lt_succ_self _)
  refine ⟨after.put handle (.composite moved), ?_, ?_,
    (outside.widen (Nat.le_refl _) (Nat.le_succ _)).trans put⟩
  · rw [moveWithin_seeks here shown below, run]
  · refine @Tracks.composite _ _ _ handle moved meanings starts behind
      ((size_put ..).symm ▸ boundAfter) (cursor_put_self boundAfter _) family first ?_
    intro found same child member
    exact (tracksNext found same child member).frame
      (Outside.of_put after _ (Nat.le_refl _) (Nat.lt_succ_self _))
      (.inl (family.inside child member).2)

/-- Moving keeps every cursor on its meaning. -/
theorem moveWithin_moves (depth : Nat) : Moves (moveWithin depth) depth := by
  induction depth with
  | zero =>
      intro _ _ _ _ _ _ impossible
      exact absurd impossible (Nat.not_lt_zero _)
  | succ depth induction =>
      intro forest meaning start handle floor target within tracks above
      cases tracks with
      | null behind bound here =>
          exact ⟨forest, moveWithin_null target here, .null behind bound here,
            Outside.refl _ _ _⟩
      | leaf behind bound here stands =>
          rename_i leaf _ _
          obtain ⟨after, moved, standsThere⟩ := Leaf.moveTo_at stands above
          rw [moveWithin_leaf target here, moved]
          refine ⟨forest.put handle (.leaf after), rfl, ?_, ?_⟩
          · exact .leaf behind ((size_put ..).symm ▸ bound) (cursor_put_self bound _) standsThere
          · exact Outside.of_put forest _ behind (Nat.lt_succ_self _)
      | feature bound here below counts tracks =>
          rename_i wrapper child
          obtain ⟨after, moved, there, outside⟩ :=
            induction forest child start wrapper.child floor target (by omega) tracks above
          rw [moveWithin_feature target here]
          refine ⟨after, moved, ?_, outside.widen (Nat.le_refl _) (by omega)⟩
          exact .feature (outside.size ▸ bound)
            ((outside.same handle (.inr (by omega))).trans here) below counts there
      | composite behind bound here family first tracks =>
          rename_i composite meanings starts
          rcases below_or_stays composite.current target with ⟨found, shown, below⟩ | stays
          · exact moveWithin_below induction within behind bound here family shown below
              (tracks found shown)
          · have raised := first.raise above fun doc => reached_of_stays stays
            exact ⟨forest, moveWithin_run here stays,
              .composite behind bound here family raised tracks, Outside.refl _ _ _⟩

end Forest

end Concordance
