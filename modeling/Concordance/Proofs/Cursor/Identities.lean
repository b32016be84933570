import Concordance.Proofs.Cursor.Conserved

/-!
# Identities of cursors

An estimating cursor has its identity from the day it is built.  Whatever is moved or ended
afterwards, by whom and with what success, no cursor gets, loses or changes an identity.
-/

namespace Concordance

namespace Forest

variable {forest : Forest}

/-- The identity of a cursor, if it is one that estimates. -/
def identity? (forest : Forest) (handle : Handle) : Option EstimatorId :=
  (forest.cursor handle).estimator?

/-- Every cursor has the identity that it had, and those that were added have none. -/
structure Namesakes (before after : Forest) : Prop where
  size : before.cursors.size ≤ after.cursors.size
  same : ∀ handle, after.identity? handle = before.identity? handle

namespace Namesakes

theorem refl (forest : Forest) : Namesakes forest forest := ⟨Nat.le_refl _, fun _ => rfl⟩

theorem trans {first second third : Forest} (here : Namesakes first second)
    (next : Namesakes second third) : Namesakes first third :=
  ⟨Nat.le_trans here.size next.size, fun handle => (next.same handle).trans (here.same handle)⟩

/-- A cursor gives its place to one of the same identity. -/
theorem of_put {handle : Handle} {cursor : Cursor}
    (same : cursor.estimator? = forest.identity? handle) :
    Namesakes forest (forest.put handle cursor) := by
  refine ⟨Nat.le_of_eq (size_put forest handle cursor).symm, fun other => ?_⟩
  by_cases place : other.index = handle.index
  · cases other
    subst place
    by_cases inside : handle.index < forest.cursors.size
    · rw [← same, identity?, cursor_put_self inside]
    · have vacant : forest.put handle cursor = forest := by
        simp [put, Array.setIfInBounds, inside]
      rw [vacant]
  · rw [identity?, cursor_put_ne place]
    rfl

end Namesakes

theorem identity?_of_size_le {handle : Handle} (outside : forest.cursors.size ≤ handle.index) :
    forest.identity? handle = none := by
  simp [identity?, Forest.cursor, Array.getD, Nat.not_lt.mpr outside, Cursor.estimator?]

/-- Only places that are taken have an identity. -/
theorem inside_of_identity? {handle : Handle} {id : EstimatorId}
    (known : forest.identity? handle = some id) : handle.index < forest.cursors.size := by
  by_contra outside
  rw [identity?_of_size_le (Nat.not_lt.mp outside)] at known
  cases known

/-! ## Steps that leave identities alone -/

/-- What calls put in place has no identity, and had none. -/
theorem Namesakes.conserved : Conserved Namesakes where
  refl := refl
  trans _ _ _ := trans
  leaf forest handle before after here _ := by
    apply of_put
    rw [identity?, here]
    rfl
  composite before forest handle composite next here kept _ := by
    apply kept.trans (of_put _)
    rw [kept.same, identity?, here]
    rfl

/-- A step after which all cursors have the identities that they had, even if it fails. -/
def Discreet {α : Type} (step : Step Forest α) : Prop :=
  ∀ forest, Namesakes forest (step.endState forest)

theorem discreet_get : Discreet get := Namesakes.conserved.get

theorem discreet_ofExcept {α : Type} (result : Except Error α) :
    Discreet (Step.ofExcept result) := Namesakes.conserved.ofExcept result

/-- Moving a cursor gives a leaf or a combination its place back, and nothing else. -/
theorem moveTo_discreet (handle : Handle) (target : DocId) : Discreet (moveTo handle target) :=
  Namesakes.conserved.moveTo handle target

theorem seek_discreet (combination : Combination) (children : List Handle) (target : DocId) :
    Discreet (seek moveTo combination children target) :=
  Namesakes.conserved.seek moveTo_discreet combination children target

/-- No call on a cursor changes an identity. -/
theorem Call.run_discreet (handle : Handle) (call : Call) : Discreet (call.run handle) :=
  Namesakes.conserved.call handle call

end Forest

end Concordance
