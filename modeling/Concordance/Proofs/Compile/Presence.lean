import Concordance.Proofs.Compile.Evaluation
import Concordance.Proofs.Compile.Planting

/-!
# Which keys an index has

Whether a query is supported depends on the query and not on the index, as far as
no extents are asked of a leaf that reads none.  There the keys matter: what
stands for a missing key offers extents, and the leaf of a key does not.
-/

namespace Concordance

/-- Arenas that hold cursors under the same texts. -/
def Arena.Alike (first second : Arena) : Prop :=
  ∀ text, (first.get? text).isSome = (second.get? text).isSome

theorem Arena.get?_insert (arena : Arena) (name : String) (handle : Handle) (text : String) :
    (arena.insert name handle).get? text =
      (arena.get? text).or (if name = text then some handle else none) := by
  unfold insert get?
  simp only [Array.find?_push, Option.map_or]
  congr 1
  by_cases same : name = text
  · simp [same]
  · simp [same]

theorem Arena.Alike.insert {first second : Arena} (alike : first.Alike second) (name : String)
    (handle other : Handle) : (first.insert name handle).Alike (second.insert name other) := by
  intro text
  rw [get?_insert, get?_insert, Option.isSome_or, Option.isSome_or, alike text]
  split <;> rfl

namespace Compiler

variable {first second : Compiler}

/-- Over a written index a tree is built wherever it has something to offer. -/
theorem exists_build_iff {compiler : Compiler} {interval : Nat} {calls : List Index.Call}
    (produced : Index.Produced interval calls compiler.index)
    (builtIn : compiler.registry.BuiltIn) (node : Node) (bench : Workbench) :
    (∃ handle after, compiler.build node bench = .ok handle after) ↔
      ∃ offer, node.offer compiler.registry compiler.shareNodes compiler.index = .ok offer := by
  have plants := build_plants produced.serves.supplies builtIn node bench
  constructor
  · rintro ⟨handle, after, built⟩
    obtain ⟨offer, offered, _⟩ := plants.of_ok built
    exact ⟨offer, offered⟩
  · rintro ⟨offer, offered⟩
    cases built : compiler.build node bench with
    | ok handle after => exact ⟨handle, after, rfl⟩
    | error cause failed =>
        rcases plants.of_error built with impossible | refused
        · exact impossible.elim
        · rw [offered] at refused
          cases refused

theorem compile_held {compiler : Compiler} {node : Node} {arena : Arena} {handle : Handle}
    (shared : compiler.shareNodes = true) (held : arena.get? node.text = some handle)
    (bench : Workbench) : compiler.compile node arena bench = .ok (handle, arena) bench := by
  unfold compile
  rw [if_pos shared, held]
  rfl

theorem compile_fresh {compiler : Compiler} {node : Node} {arena : Arena}
    (fresh : compiler.shareNodes = true → arena.get? node.text = none) (bench : Workbench) :
    compiler.compile node arena bench =
      match compiler.build node bench with
      | .ok handle after =>
        .ok (handle, if compiler.shareNodes then arena.insert node.text handle else arena) after
      | .error cause after => .error cause after := by
  unfold compile
  cases shared : compiler.shareNodes with
  | false =>
      rw [if_neg Bool.false_ne_true, Step.bind_run]
      cases compiler.build node bench <;> rfl
  | true =>
      rw [if_pos rfl, fresh shared]
      dsimp only
      rw [Step.bind_run]
      cases compiler.build node bench <;> rfl

section Produced

variable {interval otherInterval : Nat} {calls otherCalls : List Index.Call}
  (produced : Index.Produced interval calls first.index)
  (otherProduced : Index.Produced otherInterval otherCalls second.index)
  (registry : second.registry = first.registry) (sharing : second.shareNodes = first.shareNodes)
  (builtIn : first.registry.BuiltIn) {node : Node}
  (agrees : node.Agrees first.registry first.index second.index)

include produced otherProduced registry sharing builtIn agrees

theorem build_alike (bench otherBench : Workbench) :
    match first.build node bench, second.build node otherBench with
    | .ok _ _, .ok _ _ => True
    | .error cause _, .error other _ => cause.kind = other.kind
    | _, _ => False := by
  have outcomes := @Node.offer_agrees _ first.shareNodes _ _ node agrees
  have ends := build_plants produced.serves.supplies builtIn node bench
  have otherEnds := build_plants otherProduced.serves.supplies (registry ▸ builtIn) node otherBench
  rw [registry, sharing] at otherEnds
  cases built : first.build node bench with
  | ok handle after =>
      obtain ⟨offer, known, _⟩ := ends.of_ok built
      rw [known] at outcomes
      cases rebuilt : second.build node otherBench with
      | ok other later => trivial
      | error cause later =>
          rw [(otherEnds.of_error rebuilt).resolve_left id] at outcomes
          cases outcomes
  | error cause after =>
      rw [(ends.of_error built).resolve_left id] at outcomes
      cases rebuilt : second.build node otherBench with
      | ok other later =>
          obtain ⟨offer, known, _⟩ := otherEnds.of_ok rebuilt
          rw [known] at outcomes
          cases outcomes
      | error other later =>
          rw [(otherEnds.of_error rebuilt).resolve_left id] at outcomes
          exact outcomes.kind_eq

/-- Whether a tree is supported does not depend on the index, where it asks no extents of a
leaf that reads none and whose key only one of the indexes has. -/
theorem compile_alike {arena rival : Arena} (alike : arena.Alike rival)
    (bench otherBench : Workbench) :
    match first.compile node arena bench, second.compile node rival otherBench with
    | .ok (_, kept) _, .ok (_, others) _ => kept.Alike others
    | .error cause _, .error other _ => cause.kind = other.kind
    | _, _ => False := by
  by_cases fresh : first.shareNodes = true → arena.get? node.text = none
  · have freshRival : second.shareNodes = true → rival.get? node.text = none := by
      intro shared
      have same := alike node.text
      rw [fresh (sharing ▸ shared)] at same
      exact Option.isNone_iff_eq_none.mp (Option.isSome_eq_false_iff.mp same.symm)
    have builds := build_alike produced otherProduced registry sharing builtIn agrees bench
      otherBench
    rw [compile_fresh fresh, compile_fresh freshRival, sharing]
    cases built : first.build node bench with
    | error cause after =>
        cases rebuilt : second.build node otherBench with
        | error other later => rwa [built, rebuilt] at builds
        | ok other later => rwa [built, rebuilt] at builds
    | ok handle after =>
        cases rebuilt : second.build node otherBench with
        | error other later => rwa [built, rebuilt] at builds
        | ok other later =>
            dsimp only
            split
            · exact alike.insert _ _ _
            · exact alike
  · obtain ⟨shared, held⟩ := Classical.not_imp.mp fresh
    obtain ⟨handle, known⟩ := Option.ne_none_iff_exists'.mp held
    obtain ⟨other, reknown⟩ := Option.isSome_iff_exists.mp
      ((alike node.text).symm.trans (by rw [known]; rfl))
    rw [compile_held shared known, compile_held (sharing.trans shared) reknown]
    exact alike

end Produced

end Compiler

namespace Example

/-- The index of a writer that was told nothing. -/
def blank : Index := (Index.Ledger.ofCalls []).index 1 Index.KeyFormat.plain "blank"

theorem blank_produced : Index.Produced 1 [] blank := by
  obtain ⟨written, _, finished⟩ := @Index.finished_of_length 1 [] Index.KeyFormat.plain 84
    (by cbv) (by decide) (by decide) (by decide)
  exact Index.Produced.of_finished finished Index.KeyFormat.plain_faithful "blank"

/-- A leaf without extents, beside a window over two keys. -/
def beside : Node :=
  ⟨"bor", TextMap.empty,
    [⟨"counts", TextMap.empty.insert Node.defaultName (.string "a"), []⟩,
      ⟨"od", TextMap.empty, [Node.term "a", Node.term "b"]⟩]⟩

theorem beside_agrees : beside.Agrees registry index blank := by
  have leaf : ∀ (operator : String) (parameters : TextMap Param),
      Node.Agrees registry index blank ⟨operator, parameters, []⟩ :=
    fun operator parameters =>
      .intro _ (List.forall_mem_nil _) fun _ => List.forall_mem_nil _
  have window : Node.Agrees registry index blank
      ⟨"od", TextMap.empty, [Node.term "a", Node.term "b"]⟩ := by
    refine .intro _ ?_ fun _ => ?_
    · exact List.forall_mem_cons.mpr ⟨leaf _ _, List.forall_mem_cons.mpr
        ⟨leaf _ _, List.forall_mem_nil _⟩⟩
    · refine List.forall_mem_cons.mpr ⟨?_, List.forall_mem_cons.mpr
        ⟨?_, List.forall_mem_nil _⟩⟩
      · intro impossible
        cases impossible
      · intro impossible
        cases impossible
  refine .intro _ ?_ ?_
  · exact List.forall_mem_cons.mpr ⟨leaf _ _, List.forall_mem_cons.mpr
      ⟨window, List.forall_mem_nil _⟩⟩
  · rintro (impossible | ⟨order, impossible⟩) <;> cases impossible

/-- A leaf without extents under an operator that asks for them. -/
def asking : Node :=
  ⟨"syn", TextMap.empty, [⟨"counts", TextMap.empty.insert Node.defaultName (.string "a"), []⟩]⟩

/-- A compiler over an index that shares nothing. -/
def bare (index : Index) : Compiler := ⟨index, registry, none, "", false⟩

theorem asking_refused :
    Step.evaluate ((bare index).compile asking Arena.empty) ⟨Forest.empty, ScoringContext.new⟩ =
      .error (.childLacks "syn" Capabilities.onlyExtents "a" Capabilities.countAndAggregate) := by
  cbv

theorem asking_built :
    Step.evaluate (do
      let _ ← (bare blank).compile asking Arena.empty
      pure true) ⟨Forest.empty, ScoringContext.new⟩ = .ok true := by
  cbv

end Example

namespace Compiler

/-- An index with two keys, and one without any. -/
theorem compile_alike_beside :
    let first : Compiler := ⟨Example.index, Example.registry, none, "", true⟩
    let second : Compiler := { first with index := Example.blank }
    let bench : Workbench := ⟨Forest.empty, ScoringContext.new⟩
    Index.Produced 1 Example.calls first.index ∧ Index.Produced 1 [] second.index ∧
      first.registry.BuiltIn ∧ Example.beside.Agrees first.registry first.index second.index ∧
      Arena.empty.Alike Arena.empty ∧
      match first.compile Example.beside Arena.empty bench,
          second.compile Example.beside Arena.empty bench with
      | .ok (_, kept) _, .ok (_, others) _ => kept.Alike others
      | .error cause _, .error other _ => cause.kind = other.kind
      | _, _ => False := by
  intro first second bench
  have builtIn : first.registry.BuiltIn := Registry.withOverrides_builtIn _
  have alike : Arena.empty.Alike Arena.empty := fun _ => rfl
  have same := @compile_alike first second 1 1 Example.calls [] Example.produced
    Example.blank_produced rfl rfl builtIn Example.beside Example.beside_agrees Arena.empty
    Arena.empty alike bench bench
  exact ⟨Example.produced, Example.blank_produced, builtIn, Example.beside_agrees, alike, same⟩

/-- With its key the leaf is refused, and without it the tree is built. -/
theorem compile_alike_asking :
    ¬∀ (interval otherInterval : Nat) (calls otherCalls : List Index.Call)
      (first second : Compiler) (node : Node) (arena rival : Arena) (bench otherBench : Workbench),
      Index.Produced interval calls first.index →
      Index.Produced otherInterval otherCalls second.index →
      second.registry = first.registry → second.shareNodes = first.shareNodes →
      first.registry.BuiltIn → arena.Alike rival →
      match first.compile node arena bench, second.compile node rival otherBench with
      | .ok (_, kept) _, .ok (_, others) _ => kept.Alike others
      | .error cause _, .error other _ => cause.kind = other.kind
      | _, _ => False := by
  intro alike
  have differs := alike 1 1 Example.calls [] (Example.bare Example.index)
    (Example.bare Example.blank) Example.asking Arena.empty Arena.empty
    ⟨Forest.empty, ScoringContext.new⟩ ⟨Forest.empty, ScoringContext.new⟩ Example.produced
    Example.blank_produced rfl rfl (Registry.withOverrides_builtIn _) fun _ => rfl
  obtain ⟨_, run⟩ := Step.evaluate_eq_ok Example.asking_built
  obtain ⟨_, _, built, _⟩ := Step.bind_eq_ok run
  rw [built] at differs
  cases compiled : (Example.bare Example.index).compile Example.asking Arena.empty
      ⟨Forest.empty, ScoringContext.new⟩ with
  | error cause after =>
      rw [compiled] at differs
      exact differs
  | ok result after =>
      have refused := Example.asking_refused
      rw [Step.evaluate_ok compiled] at refused
      cases refused

end Compiler

end Concordance
