import Concordance.Proofs.Cursor.Calls

/-!
# What cursors declare

A cursor gives what it declares and refuses everything else, in whatever state it is.  What it
declares it can only refuse once it is done.
-/

namespace Concordance

/-- An answer that is refused as unsupported unless it is declared, and where it is declared
only by a cursor that is done. -/
structure Delivers {α : Type} (declared done : Bool) (answer : Except Error α) : Prop where
  unsupported : (∃ cause, answer = .error cause ∧ cause.kind = .unsupportedNode) ↔
    declared = false
  exhausted : declared = true → ∀ cause, answer = .error cause →
    done = true ∧ cause.kind = .invalidCursorState

namespace Delivers

variable {α : Type} {done : Bool} {cause : Error}

theorem given (value : α) : Delivers true done (.ok value) where
  unsupported :=
    ⟨fun ⟨_, impossible, _⟩ => (nomatch impossible), fun impossible => nomatch impossible⟩
  exhausted _ _ impossible := nomatch impossible

theorem refused (kind : cause.kind = .unsupportedNode) :
    Delivers false done (.error cause : Except Error α) where
  unsupported := ⟨fun _ => rfl, fun _ => ⟨cause, rfl, kind⟩⟩
  exhausted impossible := nomatch impossible

theorem ended (kind : cause.kind = .invalidCursorState) :
    Delivers true true (.error cause : Except Error α) where
  unsupported := by
    refine ⟨?_, fun impossible => nomatch impossible⟩
    rintro ⟨_, same, unsupported⟩
    cases same
    cases kind.symm.trans unsupported
  exhausted _ _ same := by
    cases same
    exact ⟨rfl, kind⟩

end Delivers

theorem Leaf.count_delivers (leaf : Leaf) :
    Delivers leaf.capabilities.count leaf.reader.isDone leaf.count := by
  have declares : leaf.capabilities.count = true := by
    unfold Leaf.capabilities
    split <;> rfl
  rw [declares, Leaf.count]
  cases leaf.reader.isDone with
  | true => exact .ended rfl
  | false => exact .given _

theorem Leaf.extents_delivers (leaf : Leaf) :
    Delivers leaf.capabilities.extents leaf.reader.isDone leaf.extents := by
  unfold Leaf.capabilities Leaf.extents
  cases leaf.reader.withExtents with
  | false => exact .refused rfl
  | true =>
      cases leaf.reader.isDone with
      | true => exact .ended rfl
      | false => exact .given _

theorem Composite.count_delivers (composite : Composite) :
    Delivers composite.combination.capabilities.count composite.current.isNone
      composite.count := by
  unfold Composite.count
  cases composite.combination.capabilities.count with
  | false => exact .refused rfl
  | true =>
      cases composite.current with
      | none => exact .ended rfl
      | some found => exact .given _

theorem Composite.extents_delivers (composite : Composite) :
    Delivers composite.combination.capabilities.extents composite.current.isNone
      composite.extents := by
  unfold Composite.extents
  cases composite.combination.capabilities.extents with
  | false => exact .refused rfl
  | true =>
      cases composite.current with
      | none => exact .ended rfl
      | some found => exact .given _

namespace Forest

/-- What a cursor declares is what it gives. -/
structure Declares (forest : Forest) (handle : Handle) : Prop where
  count : Delivers (forest.capabilities handle).count (forest.isDone handle)
    (forest.count handle)
  extents : Delivers (forest.capabilities handle).extents (forest.isDone handle)
    (forest.extents handle)
  statistics : ∀ collection, ((forest.cursor handle).statistics? collection).isSome =
    (forest.capabilities handle).aggregate
  estimator : (forest.cursor handle).estimator?.isSome = (forest.capabilities handle).estimator

/-- Whatever happened to a forest, its cursors give what they declare. -/
theorem declares (forest : Forest) (handle : Handle) : forest.Declares handle := by
  cases here : forest.cursor handle with
  | null key =>
      have done : forest.isDone handle = true := by
        rw [isDone, position_null here]
        rfl
      constructor <;> rw [capabilities, here]
      · rw [done, count, here]
        exact .ended rfl
      · rw [done, extents, here]
        exact .ended rfl
      · exact fun _ => rfl
      · rfl
  | leaf leaf =>
      have done := isDone_leaf here
      constructor <;> rw [capabilities, here]
      · rw [done, count, here]
        exact leaf.count_delivers
      · rw [done, extents, here]
        exact leaf.extents_delivers
      · intro collection
        rw [Cursor.capabilities, Leaf.capabilities]
        cases leaf.reader.withExtents <;> rfl
      · rw [Cursor.capabilities, Leaf.capabilities]
        cases leaf.reader.withExtents <;> rfl
  | composite composite =>
      have done : forest.isDone handle = composite.current.isNone := by
        rw [isDone, position_composite here]
        exact Option.isNone_map
      constructor <;> rw [capabilities, here]
      · rw [done, count, here]
        exact composite.count_delivers
      · rw [done, extents, here]
        exact composite.extents_delivers
      · intro collection
        rw [Cursor.capabilities]
        cases composite.combination <;> rfl
      · rw [Cursor.capabilities]
        cases composite.combination <;> rfl
  | feature wrapper =>
      constructor <;> rw [capabilities, here]
      · rw [count, here]
        exact .refused rfl
      · rw [extents, here]
        exact .refused rfl
      · exact fun _ => rfl
      · rfl

end Forest

end Concordance
