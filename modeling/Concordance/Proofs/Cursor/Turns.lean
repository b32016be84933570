import Concordance.Proofs.Cursor.Unfolding
import Concordance.Proofs.Lockstep

/-!
# Moving children in turns

Whoever has two places among the children of one parent is moved twice, and the second move
finds it where the first one left it.  So each child ends where moving it alone brings it,
whatever the others are and however often it is moved.
-/

namespace Concordance

theorem Leaf.moveTo_again {leaf after : Leaf} {target : DocId}
    (run : moveTo target leaf = .ok () after)
    (reached : ∀ doc, after.reader.current = some doc → ¬doc < target) :
    moveTo target after = .ok () after := by
  cases running : leaf.reader.isDone with
  | true =>
      cases (moveTo_done target running).symm.trans run
      exact run
  | false =>
      by_cases refused : target < leaf.floor
      · cases (moveTo_refused running refused).symm.trans run
      · have skipped := (moveTo_skips running refused).symm.trans run
        obtain ⟨reader, _, rfl⟩ := Step.onPart_eq_ok skipped
        rcases moveTo_reached reached with ⟨floor, rfl | rfl, stays⟩ | ⟨less, _⟩
        · exact stays
        · exact stays
        · exact absurd less (Nat.lt_irrefl _)

/-! ## Moving twice -/

namespace Forest

variable {law : Leaf.Law}

/-- Moving a cursor to where it was moved before changes nothing. -/
def Steady (law : Leaf.Law) (move : Move) (limit : Nat) : Prop :=
  ∀ (forest after : Forest) (offered : Capabilities) (weight start : Nat) (handle : Handle)
    (floor : Nat) (target : DocId), handle.index < limit →
    Poised law forest offered weight start handle floor → floor ≤ target.val →
    move handle target forest = .ok () after → move handle target after = .ok () after

theorem put_self {forest : Forest} {handle : Handle} {cursor : Cursor}
    (here : forest.cursor handle = cursor) (bound : handle.index < forest.cursors.size) :
    forest.put handle cursor = forest := by
  obtain ⟨cursors⟩ := forest
  subst here
  have inside : handle.index < cursors.size := bound
  simp [put, Forest.cursor, Array.getD, Array.setIfInBounds, inside]

theorem moveWithin_steady (depth : Nat) : Steady law (moveWithin depth) depth := by
  induction depth with
  | zero =>
      intro _ _ _ _ _ _ _ _ impossible
      exact absurd impossible (Nat.not_lt_zero _)
  | succ depth induction =>
      intro forest after offered weight start handle floor target within poised above run
      have moved := ((moveWithin_drives (depth + 1) forest _ _ _ handle floor target within poised
        above).of_ok run).1
      cases poised with
      | null behind bound here =>
          rw [moveWithin_null target here] at run
          cases run
          exact moveWithin_null target here
      | leaf behind bound here stands light =>
          rename_i leaf
          rw [moveWithin_leaf target here] at run
          cases skipped : Leaf.moveTo target leaf with
          | error cause failed =>
              rw [skipped] at run
              cases run
          | ok value last =>
              rw [skipped] at run
              cases run
              have there := cursor_put_self bound (.leaf last)
              have reached : ∀ doc, last.reader.current = some doc → ¬doc < target := by
                intro doc shown
                apply DocId.not_lt.mpr
                apply moved.reached
                rw [position_leaf there]
                exact shown
              rw [moveWithin_leaf target there, Leaf.moveTo_again skipped reached]
              exact congrArg _ (put_self there moved.bound)
      | feature bound here below counts poised =>
          rename_i wrapper _
          rw [moveWithin_feature target here] at run
          obtain ⟨_, inner⟩ := (moveWithin_drives depth forest _ _ _ wrapper.child floor target
            (by omega) poised above).of_ok run
          have there := (inner.same handle (.inr (by omega))).trans here
          rw [moveWithin_feature target there]
          exact induction forest after _ _ _ wrapper.child floor target (by omega) poised above run
      | composite behind bound here siblings light reached whole low poised =>
          rename_i composite _ _ _ _
          rcases below_or_stays composite.current target with ⟨found, shown, below⟩ | stays
          · rw [moveWithin_seeks here shown below] at run
            cases sought : seek (moveWithin depth) composite.combination composite.children target
                forest with
            | error cause failed =>
                rw [sought] at run
                cases run
            | ok next middle =>
                rw [sought] at run
                cases run
                have inside := moved.bound
                rw [size_put] at inside
                have there := cursor_put_self inside
                  (.composite { composite with current := next })
                refine moveWithin_run there fun found shown => Nat.not_lt.mpr (moved.reached ?_)
                rw [position_composite there]
                exact congrArg (Option.map Match.doc) shown
          · rw [moveWithin_run here stays] at run
            cases run
            exact moveWithin_run here stays

/-! ## Moving several children -/

/-- Two ways to move a cursor that do the same to cursors with one tree. -/
def MovesAlike (law : Leaf.Law) (move rivalMove : Move) (limit rivalLimit : Nat) : Prop :=
  ∀ (forest other : Forest) (offered offers : Capabilities) (weight bulk start begin : Nat)
    (handle rival : Handle) (floor lower : Nat) (target : DocId),
    handle.index < limit → rival.index < rivalLimit →
    Poised law forest offered weight start handle floor →
    Poised law other offers bulk begin rival lower →
    forest.unfold handle = other.unfold rival →
    (move handle target).Echoes (rivalMove rival target) forest other
      fun after later => after.unfold handle = later.unfold rival

/-- A way to move cursors that never fails, that can be repeated, and that does the same to
cursors with one tree. -/
structure Reliable (law : Leaf.Law) (move : Move) (limit : Nat) : Prop where
  sure : ∀ cause, ¬law.Fails cause
  drives : Drives law move limit
  steady : Steady law move limit
  alike : MovesAlike law move move limit limit

/-- Where no leaf fails, a cursor can be moved. -/
theorem Reliable.run {move : Move} {limit : Nat} (reliable : Reliable law move limit)
    {forest : Forest} {offered : Capabilities} {weight start floor : Nat} {handle : Handle}
    {target : DocId} (within : handle.index < limit)
    (poised : Poised law forest offered weight start handle floor) (above : floor ≤ target.val) :
    ∃ after, move handle target forest = .ok () after ∧
      Poised law after offered weight start handle target.val ∧
      Outside start (handle.index + 1) forest after := by
  have ends := reliable.drives forest offered weight start handle floor target within poised above
  obtain ⟨_, after, run, there⟩ := ends.exists_ok reliable.sure
  exact ⟨after, run, there⟩

/-- Children of one parent, with what is known of their trees. -/
structure Brood where
  children : List Handle
  offers : Handle → Capabilities
  weights : Handle → Nat
  starts : Handle → Nat

/-- A child that can be moved from a position on. -/
def Brood.Stands (brood : Brood) (law : Leaf.Law) (child : Handle) (floor : Nat)
    (forest : Forest) : Prop :=
  Poised law forest (brood.offers child) (brood.weights child) (brood.starts child) child floor

/-- The tree of a child once it alone was moved. -/
def alone (move : Move) (target : DocId) (forest : Forest) (child : Handle) : Unfolded :=
  (Step.endState (move child target) forest).unfold child

section Alone

variable {brood : Brood} {move : Move} {combination : Combination} {start limit : Nat}
  {target : DocId} {forest : Forest}

/-- A child that stands where moving it alone brings it. -/
structure Moved (law : Leaf.Law) (brood : Brood) (move : Move) (target : DocId)
    (forest : Forest) (child : Handle) (middle : Forest) : Prop where
  stands : brood.Stands law child target.val middle
  same : middle.unfold child = alone move target forest child

/-- While the children are moved in turns, some have been moved and the others wait where they
were. -/
def Halfway (law : Leaf.Law) (brood : Brood) (move : Move) (target : DocId)
    (forest : Forest) (child : Handle) (middle : Forest) : Prop :=
  (∃ floor, floor ≤ target.val ∧ brood.Stands law child floor middle ∧
    middle.unfold child = forest.unfold child) ∨
  Moved law brood move target forest child middle

theorem Moved.frame {child : Handle} {middle after : Forest} {lower upper : Nat}
    (moved : Moved law brood move target forest child middle)
    (outside : Outside lower upper middle after)
    (apart : child.index < lower ∨ upper ≤ brood.starts child) :
    Moved law brood move target forest child after :=
  ⟨Poised.frame moved.stands outside apart,
    (Poised.unfold_frame moved.stands outside apart).trans moved.same⟩

theorem Halfway.frame {child : Handle} {middle after : Forest} {lower upper : Nat}
    (halfway : Halfway law brood move target forest child middle)
    (outside : Outside lower upper middle after)
    (apart : child.index < lower ∨ upper ≤ brood.starts child) :
    Halfway law brood move target forest child after := by
  rcases halfway with ⟨floor, above, stands, same⟩ | moved
  · exact .inl ⟨floor, above, Poised.frame stands outside apart,
      (Poised.unfold_frame stands outside apart).trans same⟩
  · exact .inr (moved.frame outside apart)

variable (reliable : Reliable law move limit)
  (siblings : Siblings combination brood.children brood.offers brood.starts start limit)
  (ready : Ready brood.children (brood.Stands law) target.val forest)

include reliable siblings ready

/-- Whatever happened to the others, and to the child itself, moving it brings it to where
moving it alone does. -/
theorem move_alone {child : Handle} (member : child ∈ brood.children) {middle : Forest}
    (halfway : Halfway law brood move target forest child middle) :
    ∃ after, move child target middle = .ok () after ∧
      Moved law brood move target forest child after ∧
      Outside (brood.starts child) (child.index + 1) middle after := by
  obtain ⟨within, before⟩ := siblings.inside child member
  obtain ⟨floor, above, stands⟩ := ready child member
  obtain ⟨first, begun, there, _⟩ := reliable.run before stands above
  have tree : alone move target forest child = first.unfold child := by
    rw [alone, Step.endState_ok begun]
  -- Both a child that waits and one that was moved look like one whose move ends in `first`.
  obtain ⟨source, low, lowAbove, poised, known, low', lowAbove', standing, run⟩ :
      ∃ source low, low ≤ target.val ∧ brood.Stands law child low source ∧
        middle.unfold child = source.unfold child ∧
        ∃ low', low' ≤ target.val ∧ brood.Stands law child low' middle ∧
          move child target source = .ok () first := by
    rcases halfway with ⟨low, lowAbove, standing, known⟩ | moved
    · exact ⟨forest, floor, above, stands, known, low, lowAbove, standing, begun⟩
    · exact ⟨first, _, Nat.le_refl _, there, moved.same.trans tree, _, Nat.le_refl _, moved.stands,
        reliable.steady forest first _ _ _ child floor target before stands above begun⟩
  obtain ⟨after, ran, poisedAfter, outside⟩ := reliable.run before standing lowAbove'
  have echoes := reliable.alike middle source _ _ _ _ _ _ child child low' low target before before
    standing poised known
  refine ⟨after, ran, ⟨poisedAfter, ?_⟩, outside⟩
  rw [(echoes.of_ok ran run).2, tree]

/-- The move of one child lets the others wait or stay where they are. -/
theorem move_halfway {child : Handle} (member : child ∈ brood.children) {middle : Forest}
    (halfway : ∀ child ∈ brood.children, Halfway law brood move target forest child middle) :
    ∃ after, move child target middle = .ok () after ∧
      (∀ other ∈ brood.children, Halfway law brood move target forest other after) ∧
      Moved law brood move target forest child after ∧
      ∀ other ∈ brood.children, Moved law brood move target forest other middle →
        Moved law brood move target forest other after := by
  obtain ⟨after, run, there, outside⟩ :=
    move_alone reliable siblings ready member (halfway child member)
  have apart : ∀ other ∈ brood.children, other = child ∨
      other.index < brood.starts child ∨ child.index + 1 ≤ brood.starts other := by
    intro other isChild
    by_cases same : other = child
    · exact .inl same
    · exact .inr (outside_of_apart (siblings.apart child member other isChild) same)
  refine ⟨after, run, fun other isChild => ?_, there, fun other isChild moved => ?_⟩
  · rcases apart other isChild with rfl | clear
    · exact .inr there
    · exact (halfway other isChild).frame outside clear
  · rcases apart other isChild with rfl | clear
    · exact there
    · exact moved.frame outside clear

/-- Children that are moved in turns end where moving each of them alone brings it. -/
theorem moveAll_each :
    ∃ after, moveAll move target brood.children forest = .ok () after ∧
      ∀ child ∈ brood.children, Moved law brood move target forest child after := by
  have waiting : ∀ child ∈ brood.children,
      Halfway law brood move target forest child forest := by
    intro child member
    obtain ⟨floor, above, stands⟩ := ready child member
    exact .inl ⟨floor, above, stands, rfl⟩
  have ends : (moveAll move target brood.children).Ends forest
      (fun _ after =>
        (∀ child ∈ brood.children, Halfway law brood move target forest child after) ∧
        ∀ child ∈ brood.children, Moved law brood move target forest child after)
      (fun _ => False) := by
    refine moveAll_arrives (fun child member middle halfway => ?_) waiting
    obtain ⟨after, run, there⟩ := move_halfway reliable siblings ready member halfway
    exact Step.ends_done run there
  obtain ⟨_, after, run, _, moved⟩ := ends.exists_ok fun _ => id
  exact ⟨after, run, moved⟩

end Alone

end Forest

end Concordance
