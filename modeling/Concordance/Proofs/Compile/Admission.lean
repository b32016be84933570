import Concordance.Proofs.Compile.Legible

/-!
# Trees that can be built

A tree is built if every node of it has an implementation and gives it what it asks for.  That
depends on how the tree reads and on what its parts mean, so legible trees with one text are
built or refused together.  A tree that is refused leaves the cursors before it alone.
-/

namespace Concordance

namespace Node

/-! ## What trees that are alike have in common -/

theorem map_eq_of_zip {α : Type} {view : Node → α} {firsts seconds : List Node}
    (length : firsts.length = seconds.length)
    (same : ∀ pair ∈ firsts.zip seconds, view pair.1 = view pair.2) :
    firsts.map view = seconds.map view := by
  induction firsts generalizing seconds with
  | nil =>
      cases seconds with
      | nil => rfl
      | cons => cases length
  | cons first firsts induction =>
      cases seconds with
      | nil => cases length
      | cons second seconds =>
          obtain ⟨here, later⟩ := List.forall_mem_cons.mp same
          rw [List.map_cons, List.map_cons, here, induction (Nat.succ.inj length) later]

section Reading

variable {first second : Node} (texts : ∀ name, first.getString? name = second.getString? name)
  (longs : ∀ name, first.getLong? name = second.getLong? name)
  (length : first.children.length = second.children.length)

include texts

theorem leafKey_congr : first.leafKey = second.leafKey := by
  rw [leafKey, leafKey, texts, texts]

theorem namesKey_congr : first.NamesKey = second.NamesKey := by
  rw [NamesKey, NamesKey, texts, texts]

omit texts

include longs

theorem asksWidth_congr : first.AsksWidth = second.AsksWidth := by
  simp only [AsksWidth, longs]

include length

theorem windowWidth_congr (order : Window.Order) :
    first.windowWidth order = second.windowWidth order := by
  simp only [windowWidth, longs, length]

include texts

/-- An implementation of the library means the same for nodes that are read alike. -/
theorem meaning_congr {implementation : Implementation}
    (library : ∀ build, implementation ≠ .custom build) (customs : Customs) (contents : Contents)
    {children : List Meaning} :
    implementation.meaning customs contents first children =
      implementation.meaning customs contents second children := by
  cases implementation with
  | source withExtents =>
      rw [Implementation.meaning, Implementation.meaning, leafKey_congr texts]
  | window order =>
      rw [Implementation.meaning, Implementation.meaning, windowWidth_congr longs length]
  | custom build => exact absurd rfl (library build)
  | _ => rfl

/-- An implementation asks the same of nodes that are read alike. -/
theorem admits_congr {implementation : Implementation} {children : List Meaning} :
    implementation.Admits first children = implementation.Admits second children := by
  cases implementation with
  | source withExtents => exact namesKey_congr texts
  | window order =>
      rw [Implementation.Admits, Implementation.Admits, asksWidth_congr longs,
        windowWidth_congr longs length]
  | _ => rfl

end Reading

theorem Alike.meaning_eq {registry : Registry} (builtIn : registry.BuiltIn) {customs : Customs}
    {contents : Contents} {first second : Node} (alike : first.Alike second) :
    first.meaning registry customs contents = second.meaning registry customs contents := by
  induction alike with
  | @intro first second operator texts longs length children induction =>
      have below := map_eq_of_zip length induction
      rw [← meanings_eq_map, ← meanings_eq_map] at below
      cases resolved : registry.resolve? first.operator with
      | none =>
          rw [meaning_unresolved customs contents resolved,
            meaning_unresolved customs contents (operator ▸ resolved)]
      | some implementation =>
          rw [Node.meaning_eq customs contents resolved,
            Node.meaning_eq customs contents (operator ▸ resolved), below]
          exact meaning_congr texts longs length (builtIn _ _ resolved) customs contents

theorem Legible.telling {registry : Registry} (builtIn : registry.BuiltIn) {customs : Customs}
    {contents : Contents} {node : Node} (legible : node.Legible) :
    node.Telling (meaning registry customs contents) := by
  induction legible with
  | intro node _ _ inside induction =>
      refine .intro node induction ?_
      intro first isFirst second isSecond same
      exact ((inside first isFirst).alike (inside second isSecond) same).meaning_eq builtIn

/-- A tree whose nodes all have an implementation and give it what it asks for. -/
inductive Admitted (registry : Registry) (customs : Customs) (contents : Contents) :
    Node → Prop where
  | intro {node : Node}
      (children : ∀ child ∈ node.children, Admitted registry customs contents child)
      {implementation : Implementation}
      (resolved : registry.resolve? node.operator = some implementation)
      (admits : implementation.Admits node (meanings registry customs contents node.children)) :
      Admitted registry customs contents node

variable {registry : Registry} {customs : Customs} {contents : Contents}

theorem admitted_iff {node : Node} : node.Admitted registry customs contents ↔
    (∀ child ∈ node.children, child.Admitted registry customs contents) ∧
      ∃ implementation, registry.resolve? node.operator = some implementation ∧
        implementation.Admits node (meanings registry customs contents node.children) := by
  constructor
  · intro admitted
    cases admitted with
    | intro children resolved admits => exact ⟨children, _, resolved, admits⟩
  · rintro ⟨children, _, resolved, admits⟩
    exact .intro children resolved admits

theorem Alike.admitted (builtIn : registry.BuiltIn) {first second : Node}
    (alike : first.Alike second) (admitted : first.Admitted registry customs contents) :
    second.Admitted registry customs contents := by
  induction alike with
  | @intro first second operator texts longs length children induction =>
      obtain ⟨inside, _, resolved, admits⟩ := admitted_iff.mp admitted
      have pairs := List.forall₂_iff_zip.mpr ⟨length, fun member => induction _ member⟩
      refine .intro ?_ (operator ▸ resolved) ?_
      · intro child member
        obtain ⟨other, isOther, admitted⟩ := Window.exists_related pairs.flip member
        exact admitted (inside other isOther)
      · have below := map_eq_of_zip length fun pair member =>
          @Alike.meaning_eq _ builtIn customs contents _ _ (children pair member)
        rw [← meanings_eq_map, ← meanings_eq_map] at below
        rw [← below, ← admits_congr texts longs length]
        exact admits

end Node

theorem Workbench.onForest_settles {α : Type} {step : Step Forest α} {bench : Workbench}
    {condition : Prop} {done : α → Forest → Prop} {failed : Forest → Prop}
    (settles : step.Settles bench.forest condition done failed) :
    (Workbench.onForest step).Settles bench condition
      (fun value after => done value after.forest) (fun after => failed after.forest) := by
  rw [Step.Settles, onForest, Step.onPart]
  cases run : step bench.forest with
  | ok value rest => exact settles.of_ok run
  | error cause rest => exact settles.of_error run

namespace Compiler

variable {compiler : Compiler} {interval : Nat} {contents : Contents} {customs : Customs}

mutual

/-- A tree is built if it is admitted.  With sharing it also has to be legible. -/
theorem build_settles (serves : compiler.index.Serves interval contents)
    (builtIn : compiler.registry.BuiltIn) :
    (node : Node) → (countable : node.Countable compiler.registry customs contents) →
    (legible : compiler.shareNodes = true → node.Legible) → (bench : Workbench) →
    (compiler.build node).Settles bench (node.Admitted compiler.registry customs contents)
      (fun _ _ => True) (fun after => Forest.Kept bench.forest after.forest)
  | ⟨operator, parameters, children⟩, countable, legible, bench => by
    rw [build, Node.admitted_iff]
    apply (buildChildren_settles serves builtIn children countable.inside
      (fun shared => (legible shared).inside) [] (fun _ _ impossible => nomatch impossible)
      bench).bind
    intro handles middle compiled _
    obtain ⟨meanings, starts, grown⟩ :=
      buildChildren_grown serves (builtIn.described customs) countable
        (fun shared => (legible shared).telling builtIn) compiled
    apply Step.Settles.behind (allocate_run middle)
    let node : Node := ⟨operator, parameters, children⟩
    let request : BuildRequest :=
      ⟨node, node.signature, handles, compiler.index, middle.context.allocate.1, compiler.scorer⟩
    have settles := @Registry.build_settles _ request _ _ _ _ _ _ _ serves countable.here grown
      builtIn
    have rooted := @Workbench.onForest_settles _ _ ⟨middle.forest, middle.context.allocate.2⟩ _ _ _
      settles
    refine (rooted.imp (fun _ _ _ => trivial) ?_).before ?_
    · rintro after same
      rw [same]
      exact grown.kept
    · intro handle after _
      obtain ⟨last, seeded⟩ := compiler.seedBound_run children handle after
      exact ⟨handle, last, Step.bind_ok _ seeded, trivial⟩

theorem buildChildren_settles (serves : compiler.index.Serves interval contents)
    (builtIn : compiler.registry.BuiltIn) :
    (children : List Node) →
    (countable : ∀ child ∈ children, child.Countable compiler.registry customs contents) →
    (legible : compiler.shareNodes = true → ∀ child ∈ children, child.Legible) →
    (known : List (String × Handle)) →
    (listed : compiler.shareNodes = true → ∀ entry ∈ known, ∀ child ∈ children,
      child.text = entry.1 → child.Admitted compiler.registry customs contents) →
    (bench : Workbench) →
    (compiler.buildChildren known children).Settles bench
      (∀ child ∈ children, child.Admitted compiler.registry customs contents)
      (fun _ _ => True) (fun after => Forest.Kept bench.forest after.forest)
  | [], _, _, known, _, bench =>
    Step.settles_done rfl (fun _ impossible => nomatch impossible) trivial
  | child :: children, countable, legible, known, listed, bench => by
    obtain ⟨first, later⟩ := List.forall_mem_cons.mp countable
    have legibleFirst := fun shared => (List.forall_mem_cons.mp (legible shared)).1
    have legibleLater := fun shared => (List.forall_mem_cons.mp (legible shared)).2
    rw [buildChildren, List.forall_mem_cons]
    cases held : if compiler.shareNodes then known.lookup child.text else none with
    | some handle =>
        obtain ⟨shared, held⟩ := Option.ite_none_right_eq_some.mp held
        obtain ⟨_, _, split, _⟩ := List.lookup_eq_some_iff.mp held
        have admitted := listed shared (child.text, handle) (by simp [split]) child (by simp) rfl
        rw [and_iff_right admitted]
        apply (buildChildren_settles serves builtIn children later legibleLater known
          (fun shared entry isKnown other member =>
            listed shared entry isKnown other (List.mem_cons_of_mem _ member)) bench).before
        exact fun handles after _ => ⟨handle :: handles, after, rfl, trivial⟩
    | none =>
        have begun := build_settles serves builtIn child first legibleFirst bench
        apply begun.bind
        intro handle middle built _
        have tree := build_shares serves (builtIn.described customs) child first
          (fun shared => (legibleFirst shared).telling builtIn) built
        have others := buildChildren_settles serves builtIn children later legibleLater
          ((child.text, handle) :: known) (by
            -- A text is listed behind a tree that was built, so siblings with it are admitted.
            intro shared entry isKnown other member text
            rcases List.mem_cons.mp isKnown with rfl | earlier
            · have alike := (legibleFirst shared).alike (legibleLater shared other member) text.symm
              exact alike.admitted builtIn (begun.of_ok built).1
            · exact listed shared entry earlier other (List.mem_cons_of_mem _ member) text) middle
        refine (others.imp (fun _ _ _ => trivial) ?_).before ?_
        · exact fun after kept => tree.kept.trans kept
        · exact fun handles after _ => ⟨handle :: handles, after, rfl, trivial⟩

end

end Compiler

end Concordance
