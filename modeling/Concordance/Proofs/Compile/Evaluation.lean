import Concordance.Proofs.Compile.Building
import Concordance.Proofs.Index.RoundTrip

/-!
# Evaluating queries

A compiled query shows what its node means.  However its cursor is moved, as
long as the positions asked for do not decrease, it stands on the first match at
or behind the last of them.
-/

namespace Concordance

/-- A cursor that stands on the first match at or behind a position. -/
structure Forest.Evaluates (meaning : Meaning) (position : Nat) (handle : Handle)
    (forest : Forest) : Prop where
  capabilities : forest.capabilities handle = meaning.capabilities
  done : forest.isDone handle = true ↔
    ∀ doc : DocId, position ≤ doc.val → meaning.found doc = none
  stands : ∀ doc, forest.position handle = some doc → ∃ found,
    meaning.found doc = some found ∧ position ≤ doc.val ∧
    (∀ earlier : DocId, position ≤ earlier.val → earlier < doc →
      meaning.found earlier = none) ∧
    forest.hasMatch handle doc = true ∧
    (meaning.capabilities.count = true → forest.count handle = .ok found.count) ∧
    (meaning.capabilities.extents = true → forest.extents handle = .ok found.extents)

theorem Forest.Tracks.evaluates {forest : Forest} {meaning : Meaning} {start floor : Nat}
    {handle : Handle} (tracks : Forest.Tracks forest meaning start handle floor) :
    forest.Evaluates meaning floor handle := by
  obtain ⟨current, first, shows⟩ := tracks.shows
  refine ⟨shows.capabilities, ?_, ?_⟩
  · rw [isDone, shows.position]
    cases current with
    | none =>
        cases first with
        | nowhere absent => exact ⟨fun _ => absent, fun _ => rfl⟩
    | some current =>
        obtain ⟨behind, here, _⟩ := first.some_parts
        constructor
        · intro impossible
          cases impossible
        · intro absent
          rw [absent current.doc behind] at here
          cases here
  · intro doc standing
    rw [shows.position] at standing
    obtain ⟨found, rfl, rfl⟩ := Option.map_eq_some_iff.mp standing
    obtain ⟨behind, here, before⟩ := first.some_parts
    refine ⟨found, here, behind, before, ?_, shows.count found rfl, shows.extents found rfl⟩
    rw [hasMatch, shows.position]
    simp

namespace Compiler

variable {compiler : Compiler}

/-- Without sharing, compiling a tree is building it. -/
theorem compile_eq_ok (unshared : compiler.shareNodes = false) {node : Node} {arena kept : Arena}
    {bench after : Workbench} {handle : Handle}
    (compiled : compiler.compile node arena bench = .ok (handle, kept) after) :
    compiler.build node bench = .ok handle after := by
  unfold compile at compiled
  rw [unshared] at compiled
  obtain ⟨root, _, built, same⟩ := Step.bind_eq_ok compiled
  cases same
  exact built

/-- A compiled query that is moved on shows what its node means. -/
theorem compile_evaluates {interval : Nat} {calls : List Index.Call}
    (produced : Index.Produced interval calls compiler.index)
    (builtIn : compiler.registry.BuiltIn) (unshared : compiler.shareNodes = false) {node : Node}
    (countable : node.Countable compiler.registry Customs.nothing
      (Index.Ledger.ofCalls calls).contents)
    {arena kept : Arena} {bench after : Workbench} {handle : Handle}
    (compiled : compiler.compile node arena bench = .ok (handle, kept) after)
    {motions : List Forest.Motion}
    (ascending : (motions.map Forest.Motion.position).Pairwise (· ≤ ·)) :
    ∃ moved, Forest.Motion.runAll handle motions after.forest = .ok () moved ∧
      moved.Evaluates (node.meaning compiler.registry Customs.nothing
        (Index.Ledger.ofCalls calls).contents)
        ((motions.map Forest.Motion.position).foldl max 0) handle := by
  have built := compile_eq_ok unshared compiled
  have grown := build_grown produced.serves (builtIn.described Customs.nothing) unshared node
    countable built
  obtain ⟨moved, run, tracks⟩ := Forest.Motion.runAll_tracks grown.tracks
    (fun motion _ => Nat.zero_le motion.position) ascending
  exact ⟨moved, run, tracks.evaluates⟩

end Compiler

/-! ## Countable queries -/

theorem Index.Serves.source_countable {index : Index} {interval : Nat} {contents : Contents}
    (serves : index.Serves interval contents) {key : Key} {postings : List Posting}
    (held : contents key = some postings) (withExtents : Bool) :
    (Meaning.source postings withExtents).Countable := by
  intro doc found known
  obtain ⟨posting, member, _, rfl⟩ := Meaning.source_eq_some known
  obtain ⟨stored, _⟩ := serves.present key postings held
  cases withExtents with
  | false => exact Nat.zero_lt_succ _
  | true =>
      have counted := (stored.encodable.wellFormed posting member).counted
      exact counted ▸ stored.counts_lt posting member

theorem Node.leaf_countable {index : Index} {interval : Nat} {contents : Contents}
    (serves : index.Serves interval contents) {registry : Registry} {customs : Customs}
    {operator : String} {parameters : TextMap Param} {withExtents : Bool}
    (resolved : registry.resolve? operator = some (.source withExtents)) :
    Node.Countable registry customs contents ⟨operator, parameters, []⟩ := by
  refine .intro _ (fun _ impossible => nomatch impossible) ?_
  rw [Node.meaning_eq customs contents resolved, Implementation.meaning]
  cases held : contents (Key.ofText (Node.leafKey ⟨operator, parameters, []⟩)) with
  | none => exact fun _ _ impossible => nomatch impossible
  | some postings => exact serves.source_countable held withExtents

/-- A combination that shows no extents is countable. -/
theorem Node.combination_countable {contents : Contents} {registry : Registry} {customs : Customs}
    {node : Node} {implementation : Implementation}
    (resolved : registry.resolve? node.operator = some implementation)
    (plain : implementation = .conjunction ∨ implementation = .union ∨ implementation = .combine)
    (children : ∀ child ∈ node.children, Node.Countable registry customs contents child) :
    Node.Countable registry customs contents node := by
  refine .intro node children ?_
  rw [Node.meaning_eq customs contents resolved]
  intro doc found known
  rcases plain with rfl | rfl | rfl <;>
    simp only [Implementation.meaning, Combination.meaning, Combination.found] at known <;>
    split at known <;> cases known <;> exact Nat.zero_lt_succ _

/-! ## A query over two keys -/

namespace Example

def first : DocId := ⟨1, by omega⟩

def second : DocId := ⟨5, by omega⟩

/-- Two documents under one key, one of them under another key too. -/
def calls : List Index.Call :=
  [.beginKey [97], .beginDocument first, .addOccurrence 0, .addOccurrence 4,
    .beginDocument second, .addOccurrence 2, .beginKey [98], .beginDocument second,
    .addOccurrence 3]

def index : Index := (Index.Ledger.ofCalls calls).index 1 Index.KeyFormat.plain "index"

/-- The built-in operators and one more name for an intersection. -/
def registry : Registry := Registry.withOverrides (TextMap.empty.insert "both" "conjunction")

/-- A union over an intersection. -/
def node : Node :=
  ⟨"bor", TextMap.empty,
    [⟨"counts", TextMap.empty.insert Node.defaultName (.string "a"), []⟩,
      ⟨"both", TextMap.empty, [Node.term "a", Node.term "b"]⟩]⟩

theorem produced : Index.Produced 1 calls index := by
  obtain ⟨written, _, finished⟩ := @Index.finished_of_length 1 calls Index.KeyFormat.plain 154
    (by cbv) (by decide) (by decide) (by decide)
  exact Index.Produced.of_finished finished Index.KeyFormat.plain_faithful "index"

theorem countable :
    node.Countable registry Customs.nothing (Index.Ledger.ofCalls calls).contents := by
  have serves := produced.serves
  have both : Node.Countable registry Customs.nothing (Index.Ledger.ofCalls calls).contents
      ⟨"both", TextMap.empty, [Node.term "a", Node.term "b"]⟩ :=
    Node.combination_countable rfl (.inl rfl)
      (List.forall_mem_cons.mpr ⟨Node.leaf_countable serves rfl, List.forall_mem_cons.mpr
        ⟨Node.leaf_countable serves rfl, List.forall_mem_nil _⟩⟩)
  exact Node.combination_countable rfl (.inr (.inl rfl))
    (List.forall_mem_cons.mpr ⟨Node.leaf_countable serves rfl, List.forall_mem_cons.mpr
      ⟨both, List.forall_mem_nil _⟩⟩)

end Example

namespace Compiler

/-- The union is moved past its first match and on to a document that it does not
match. -/
theorem compile_evaluates_union :
    let compiler : Compiler := ⟨Example.index, Example.registry, none, "", false⟩
    let contents := (Index.Ledger.ofCalls Example.calls).contents
    let motions : List Forest.Motion :=
      [.moveTo Example.first, .movePast Example.first, .moveTo ⟨3, by omega⟩]
    Index.Produced 1 Example.calls compiler.index ∧ compiler.registry.BuiltIn ∧
      Example.node.Countable compiler.registry Customs.nothing contents ∧
      (motions.map Forest.Motion.position).Pairwise (· ≤ ·) ∧
      ∃ handle kept after,
        compiler.compile Example.node Arena.empty ⟨Forest.empty, ScoringContext.new⟩ =
          .ok (handle, kept) after ∧
        ∃ moved, Forest.Motion.runAll handle motions after.forest = .ok () moved ∧
          moved.Evaluates (Example.node.meaning compiler.registry Customs.nothing contents) 3
            handle := by
  intro compiler contents motions
  have builtIn : compiler.registry.BuiltIn := Registry.withOverrides_builtIn _
  have ascending : (motions.map Forest.Motion.position).Pairwise (· ≤ ·) := by decide
  refine ⟨Example.produced, builtIn, Example.countable, ascending, ?_⟩
  have compiles : Step.evaluate (do
      let _ ← compiler.compile Example.node Arena.empty
      pure true) ⟨Forest.empty, ScoringContext.new⟩ = .ok true := by cbv
  obtain ⟨final, run⟩ := Step.evaluate_eq_ok compiles
  obtain ⟨result, after, compiled, _⟩ := Step.bind_eq_ok run
  exact ⟨result.1, result.2, after, compiled,
    compile_evaluates Example.produced builtIn rfl Example.countable compiled ascending⟩

end Compiler

end Concordance
