import Concordance.Cursor.Build
import Concordance.Proofs.Cursor.Guided

/-!
# Looking at a document

Once all children stand on their first matches at or behind a document, what a
combination makes of them there is what it means there.
-/

namespace Concordance

namespace Forest

variable {move : Move} {children : List Handle} {meanings : Handle → Meaning}
  {stands : Handle → Nat → Forest → Prop} {frame : Forest → Forest → Prop}
  {forest : Forest} {doc : DocId}
  (guided : Guided move children meanings stands frame)
  (standing : ∀ child ∈ children, stands child doc.val forest)

include guided standing

/-- A child that was moved to a document stands on it exactly if it matches. -/
theorem hasMatch_eq {child : Handle} (member : child ∈ children) :
    forest.hasMatch child doc = ((meanings child).found doc).isSome := by
  obtain ⟨_, first, shows⟩ := guided.shows child member doc.val forest (standing child member)
  exact shows.hasMatch_eq first

theorem standing_eq : forest.standing children doc =
    children.filter fun child => ((meanings child).found doc).isSome :=
  List.filter_congr fun _ member => hasMatch_eq guided standing member

/-- What a child matches in a document it shows there, as far as it offers it. -/
theorem shows_found {child : Handle} (member : child ∈ children) {found : Match}
    (same : (meanings child).found doc = some found) :
    ((meanings child).capabilities.count = true → forest.count child = .ok found.count) ∧
      ((meanings child).capabilities.extents = true → forest.extents child = .ok found.extents) := by
  obtain ⟨current, first, shows⟩ := guided.shows child member doc.val forest (standing child member)
  rcases first.found_cases with ⟨here, known, place, shown⟩ | ⟨elsewhere, absent⟩
  · rw [same] at shown
    cases shown
    exact ⟨shows.count found known, shows.extents found known⟩
  · rw [same] at absent
    cases absent

omit guided standing in
theorem mapM_present {α : Type} {read : Handle → Except Error α} {view : Match → α}
    {handles : List Handle}
    (reads : ∀ child ∈ handles, ∀ found, (meanings child).found doc = some found →
      read child = .ok (view found)) :
    (handles.filter fun child => ((meanings child).found doc).isSome).mapM read =
      .ok ((Combination.present (handles.map meanings) doc).map view) := by
  induction handles with
  | nil => rfl
  | cons first handles induction =>
      obtain ⟨here, later⟩ := List.forall_mem_cons.mp reads
      cases same : (meanings first).found doc with
      | none =>
          simp only [List.filter_cons, same, Option.isSome_none, Bool.false_eq_true, if_false,
            Combination.present, List.map_cons, List.filterMap_cons]
          exact induction later
      | some found =>
          simp only [List.filter_cons, same, Option.isSome_some, if_true,
            Combination.present, List.map_cons, List.filterMap_cons, List.mapM_cons,
            here found same]
          rw [induction later]
          rfl

theorem mapM_standing {α : Type} {read : Handle → Except Error α} {view : Match → α}
    (reads : ∀ child ∈ children, ∀ found, (meanings child).found doc = some found →
      read child = .ok (view found)) :
    (forest.standing children doc).mapM read =
      .ok ((Combination.present (children.map meanings) doc).map view) := by
  rw [standing_eq guided standing]
  exact mapM_present reads

theorem all_hasMatch :
    (children.all fun child => forest.hasMatch child doc) =
      Combination.allPresent (children.map meanings) doc := by
  unfold Combination.allPresent
  rw [List.all_map]
  apply Bool.eq_iff_iff.mpr
  simp only [List.all_eq_true, Function.comp_apply]
  constructor
  · intro all child member
    exact (hasMatch_eq guided standing member).symm.trans (all child member)
  · intro all child member
    exact (hasMatch_eq guided standing member).trans (all child member)

theorem isEmpty_standing :
    (forest.standing children doc).isEmpty =
      (Combination.present (children.map meanings) doc).isEmpty := by
  unfold Combination.present
  rw [List.filterMap_map]
  apply Bool.eq_iff_iff.mpr
  simp only [List.isEmpty_iff, standing_eq guided standing, List.filter_eq_nil_iff,
    List.filterMap_eq_nil_iff, Function.comp_apply, Bool.not_eq_true, Option.isSome_eq_false_iff,
    Option.isNone_iff_eq_none]

/-- What each child shows in a document on which those stand that match it. -/
theorem mapM_extents
    (offered : ∀ child ∈ children, (meanings child).capabilities.extents = true) :
    children.mapM (fun child =>
        if forest.hasMatch child doc then forest.extents child else pure []) =
      .ok (children.map fun child =>
        (((meanings child).found doc).map Match.extents).getD []) := by
  apply Step.mapM_ok
  intro child member
  rw [hasMatch_eq guided standing member]
  cases same : (meanings child).found doc with
  | none => rfl
  | some found => exact (shows_found guided standing member same).2 (offered child member)

omit guided standing in
theorem matchOf_some {extents : List Extent} (occupied : extents ≠ [])
    (bound : extents.length < 4294967296) :
    matchOf doc extents = some ⟨doc, extents.length, extents⟩ := by
  unfold matchOf
  rw [if_neg (by simpa using occupied), storedCount, Nat.mod_eq_of_lt bound]

omit guided standing in
theorem any_isEmpty (missing : Combination.allPresent (children.map meanings) doc = false) :
    (children.map fun child => (((meanings child).found doc).map Match.extents).getD []).any
      List.isEmpty = true := by
  unfold Combination.allPresent at missing
  rw [List.all_map] at missing
  obtain ⟨child, member, absent⟩ := List.all_eq_false.mp missing
  have none : (meanings child).found doc = none := by simpa using absent
  refine List.any_eq_true.mpr ⟨[], List.mem_map.mpr ⟨child, member, ?_⟩, rfl⟩
  rw [none]
  rfl

omit guided standing in
theorem map_extents (all : Combination.allPresent (children.map meanings) doc = true) :
    (children.map fun child => (((meanings child).found doc).map Match.extents).getD []) =
      (Combination.present (children.map meanings) doc).map Match.extents := by
  induction children with
  | nil => rfl
  | cons first children induction =>
      simp only [Combination.allPresent, List.map_cons, List.all_cons, Bool.and_eq_true] at all
      obtain ⟨found, same⟩ := Option.isSome_iff_exists.mp all.1
      simp only [List.map_cons, Combination.present, List.filterMap_cons, same, Option.map_some,
        Option.getD_some]
      exact congrArg _ (induction all.2)

theorem matchAt_union
    (offered : ∀ child ∈ children,
      (meanings child).capabilities.covers Combination.union.needs = true) :
    forest.matchAt .union children doc =
      .ok ((Combination.union.meaning (children.map meanings)).found doc) := by
  have counts : (forest.standing children doc).mapM forest.count = .ok _ :=
    mapM_standing guided standing fun child member found same =>
      (shows_found guided standing member same).1
        (Capabilities.covers_count (offered child member) rfl)
  unfold matchAt
  dsimp only
  rw [counts, Step.ok_bind, List.isEmpty_map]
  simp only [total, ← List.sum_eq_foldl]
  rfl

theorem matchAt_synonym
    (sound : (Combination.synonym.meaning (children.map meanings)).Sound)
    (offered : ∀ child ∈ children,
      (meanings child).capabilities.covers Combination.synonym.needs = true)
    (countable : (Combination.synonym.meaning (children.map meanings)).Countable) :
    forest.matchAt .synonym children doc =
      .ok ((Combination.synonym.meaning (children.map meanings)).found doc) := by
  have lists : (forest.standing children doc).mapM forest.extents = .ok _ :=
    mapM_standing guided standing fun child member found same =>
      (shows_found guided standing member same).2
        (Capabilities.covers_extents (offered child member) rfl)
  unfold matchAt
  dsimp only
  rw [lists, Step.ok_bind, ← List.flatMap_def]
  cases same : (Combination.synonym.meaning (children.map meanings)).found doc with
  | none =>
      have missing : Combination.present (children.map meanings) doc = [] := by
        simpa [Combination.meaning, Combination.found] using same
      have nothing : Extent.sort [] = [] := List.mergeSort_nil
      rw [missing, List.flatMap_nil, nothing]
      rfl
  | some found =>
      obtain ⟨_, _, extents, merged, made⟩ := Combination.found_cases same
      have bound := countable doc found same
      have occupied := sound.extents_ne_nil same rfl
      rw [made] at bound occupied
      rw [← merged, made, matchOf_some occupied bound]
      rfl

omit guided standing in
theorem found_window {order : Window.Order} {width : Nat} {windows : List Extent}
    (all : Combination.allPresent (children.map meanings) doc = true)
    (searched : Window.find order width
      ((Combination.present (children.map meanings) doc).map Match.extents) = .ok windows) :
    ((Combination.window order width).meaning (children.map meanings)).found doc =
      if windows.isEmpty then none else some ⟨doc, windows.length, windows⟩ := by
  simp [Combination.meaning, Combination.found, all, searched, Except.toOption]

theorem matchAt_window {order : Window.Order} {width : Nat}
    (sound : ∀ child ∈ children, (meanings child).Sound)
    (offered : ∀ child ∈ children,
      (meanings child).capabilities.covers (Combination.window order width).needs = true)
    (countable : ((Combination.window order width).meaning (children.map meanings)).Countable) :
    forest.matchAt (.window order width) children doc =
      .ok (((Combination.window order width).meaning (children.map meanings)).found doc) := by
  have lists := mapM_extents guided standing fun child member =>
    Capabilities.covers_extents (offered child member) rfl
  unfold matchAt
  dsimp only
  rw [lists, Step.ok_bind]
  cases all : Combination.allPresent (children.map meanings) doc with
  | false =>
      have nowhere : ((Combination.window order width).meaning (children.map meanings)).found doc =
          none := by
        simp [Combination.meaning, Combination.found, all]
      rw [Window.find_missing order width (any_isEmpty all), nowhere]
      rfl
  | true =>
      obtain ⟨windows, searched, _⟩ := Window.find_ok order width
        (@Combination.present_wellOrdered _ _ doc (List.forall_mem_map.mpr sound)
          (List.forall_mem_map.mpr offered) rfl)
      have same := found_window all searched
      rw [map_extents all, searched, Step.ok_bind, same]
      by_cases empty : windows = []
      · subst empty
        rfl
      · rw [if_neg (by simpa using empty)] at same ⊢
        rw [matchOf_some empty (countable doc _ same)]
        rfl

/-- What a combination finds in a document is what it means there. -/
theorem matchAt_guided {combination : Combination}
    (sound : ∀ child ∈ children, (meanings child).Sound)
    (offered : ∀ child ∈ children,
      (meanings child).capabilities.covers combination.needs = true)
    (countable : (combination.meaning (children.map meanings)).Countable) :
    forest.matchAt combination children doc =
      .ok ((combination.meaning (children.map meanings)).found doc) := by
  cases combination with
  | conjunction =>
      unfold matchAt
      rw [all_hasMatch guided standing]
      rfl
  | union => exact matchAt_union guided standing offered
  | combine =>
      unfold matchAt
      rw [isEmpty_standing guided standing]
      rfl
  | synonym =>
      have soundWhole : (Combination.synonym.meaning (children.map meanings)).Sound :=
        Combination.meaning_sound (List.forall_mem_map.mpr sound) (List.forall_mem_map.mpr offered)
      exact matchAt_synonym guided standing soundWhole offered countable
  | window order width => exact matchAt_window guided standing sound offered countable

end Forest

end Concordance
