import Concordance.Proofs.Compile.Evaluation
import Concordance.Proofs.Compile.Seeding
import Concordance.Session.Basic

/-!
# One context for many trees

Trees are compiled one after the other into one arena with one scoring context, some of them with
sharing, some in vain, and cursors are called in between.  All identities that are given out on
the way are distinct, and the bound of each is settled when its cursor is built.
-/

namespace Concordance

namespace Session

/-- What trees are compiled into. -/
structure Desk where
  arena : Arena
  bench : Workbench

namespace Desk

def size (desk : Desk) : Nat := desk.bench.forest.cursors.size

def identity? (desk : Desk) (handle : Handle) : Option EstimatorId :=
  desk.bench.forest.identity? handle

def bound? (desk : Desk) (id : EstimatorId) : Option Bound := desk.bench.context.bound? id

end Desk

/-- What is done at a desk: trees are compiled, and cursors are called. -/
inductive Use where
  | compile (shareNodes : Bool) (node : Node)
  | ask (handle : Handle) (call : Forest.Call)

namespace Use

def run (session : Session) (desk : Desk) : Use → Desk
  | compile shareNodes node =>
    match (session.compiler shareNodes).compile node desk.arena desk.bench with
    | .ok (_, arena) bench => ⟨arena, bench⟩
    | .error _ bench => { desk with bench := bench }
  | ask handle call =>
    ⟨desk.arena, ⟨(call.run handle).endState desk.bench.forest, desk.bench.context⟩⟩

/-- The cursors that are built, each with its node.  Nothing is built for a tree that the arena
has. -/
def builds (session : Session) (desk : Desk) : Use → List (Node × Handle)
  | compile shareNodes node =>
    match if shareNodes then desk.arena.get? node.text else none with
    | some _ => []
    | none => (session.compiler shareNodes).builds node desk.bench
  | ask _ _ => []

end Use

def useAll (session : Session) (uses : List Use) (desk : Desk) : Desk :=
  uses.foldl (Use.run session) desk

/-- All cursors that are built by some uses of a desk, each with its node. -/
def built (session : Session) : List Use → Desk → List (Node × Handle)
  | [], _ => []
  | use :: uses, desk => use.builds session desk ++ built session uses (use.run session desk)

variable {session : Session} {desk : Desk}

theorem compile_endState (compiler : Compiler) (node : Node) (arena : Arena) (bench : Workbench) :
    (compiler.compile node arena).endState bench =
      match if compiler.shareNodes then arena.get? node.text else none with
      | some _ => bench
      | none => (compiler.build node).endState bench := by
  unfold Compiler.compile
  cases compiler.shareNodes with
  | false => exact Step.endState_bind_pure
  | true =>
      cases arena.get? node.text with
      | some handle => rfl
      | none => exact Step.endState_bind_pure

theorem run_compile (shareNodes : Bool) (node : Node) :
    (Use.run session desk (.compile shareNodes node)).bench =
      ((session.compiler shareNodes).compile node desk.arena).endState desk.bench := by
  rw [Use.run, Step.endState]
  cases (session.compiler shareNodes).compile node desk.arena desk.bench <;> rfl

theorem use_accounted (issuing : session.registry.Issuing) (tidy : desk.bench.context.Tidy)
    (use : Use) :
    Accounted (session.compiler false).boundFor? desk.bench (use.builds session desk)
      (use.run session desk).bench := by
  cases use with
  | ask handle call =>
      exact .of_namesakes tidy (Forest.Call.run_discreet handle call desk.bench.forest)
        (Nat.le_refl _) rfl
  | compile shareNodes node =>
      have shared : (session.compiler shareNodes).shareNodes = shareNodes := rfl
      rw [run_compile, compile_endState, Use.builds, shared]
      cases held : if shareNodes then desk.arena.get? node.text else none with
      | some handle => exact .refl tidy
      | none =>
          exact @Compiler.build_accounted (session.compiler shareNodes) issuing node desk.bench tidy

theorem useAll_accounted (issuing : session.registry.Issuing) (tidy : desk.bench.context.Tidy)
    (uses : List Use) :
    Accounted (session.compiler false).boundFor? desk.bench (built session uses desk)
      (useAll session uses desk).bench := by
  induction uses generalizing desk with
  | nil => exact .refl tidy
  | cons use uses induction =>
      have first := use_accounted issuing tidy use
      exact first.trans (induction first.tidy)

/-- A bound that was noted is never changed. -/
theorem bound?_useAll (issuing : session.registry.Issuing) (tidy : desk.bench.context.Tidy)
    (front back : List Use) {id : EstimatorId} {bound : Bound}
    (noted : (useAll session front desk).bound? id = some bound) :
    (useAll session (front ++ back) desk).bound? id = some bound := by
  have first := useAll_accounted issuing tidy front
  have given : id.number < (useAll session front desk).bench.context.nextEstimator := by
    by_contra unused
    rw [Desk.bound?, first.tidy.unused id (Nat.not_lt.mp unused)] at noted
    cases noted
  rw [useAll, List.foldl_append]
  exact ((useAll_accounted issuing first.tidy back).kept id given).trans noted

/-- What the children of a node ask for is what the table has for the first of them. -/
theorem boundFor?_compiler {table : CountTable} (counted : session.counts = some table)
    (node : Node) (bound : Bound) :
    (session.compiler false).boundFor? node.children = some bound ↔
      ∃ child rest figures, node.children = child :: rest ∧
        CountTable.isWindowOperator child.operator = true ∧
        table.get? child.signature = some figures ∧
        bound.lower = max 1 (if session.config.scorer == "bm25" then figures.documents
          else figures.frequency) ∧ bound.upper = bound.lower := by
  have same : (session.compiler false).counts = some table := counted
  rw [Compiler.boundFor?_eq_some same]
  refine exists_congr fun child => exists_congr fun rest => exists_congr fun figures => ?_
  refine and_congr_right fun _ => and_congr_right fun _ => and_congr_right fun _ => ?_
  obtain ⟨lower, upper⟩ := bound
  simp only [Compiler.tableBound, Bound.mk.injEq, Nat.max_comm 1]
  constructor
  · rintro ⟨rfl, rfl⟩
    exact ⟨rfl, rfl⟩
  · rintro ⟨rfl, rfl⟩
    exact ⟨rfl, rfl⟩

/-- Whatever is compiled with one context, with sharing or without it and in vain or not, no two
cursors that are built have one identity, and each that has one was built for a node.  It has
bounds just if the first child of the node is a window that the table has, and then both are what
the scorer needs of its counts, but not zero.  Bounds that were noted stay as they are. -/
theorem estimators_seeded {table : CountTable} (counted : session.counts = some table)
    (issuing : session.registry.Issuing) (tidy : desk.bench.context.Tidy) (uses : List Use) :
    (∀ (first second : Handle) (id : EstimatorId),
      desk.size ≤ first.index → desk.size ≤ second.index →
      (useAll session uses desk).identity? first = some id →
      (useAll session uses desk).identity? second = some id → first = second) ∧
    (∀ (handle : Handle) (id : EstimatorId), desk.size ≤ handle.index →
      (useAll session uses desk).identity? handle = some id →
      ∃ node, (node, handle) ∈ built session uses desk) ∧
    (∀ (node : Node) (handle : Handle) (id : EstimatorId),
      (node, handle) ∈ built session uses desk →
      (useAll session uses desk).identity? handle = some id →
      ∀ bound, (useAll session uses desk).bound? id = some bound ↔
        ∃ child rest figures, node.children = child :: rest ∧
          CountTable.isWindowOperator child.operator = true ∧
          table.get? child.signature = some figures ∧
          bound.lower = max 1 (if session.config.scorer == "bm25" then figures.documents
            else figures.frequency) ∧ bound.upper = bound.lower) ∧
    ∀ front back, uses = front ++ back → ∀ (id : EstimatorId) (bound : Bound),
      (useAll session front desk).bound? id = some bound →
      (useAll session uses desk).bound? id = some bound := by
  have accounted := useAll_accounted issuing tidy uses
  refine ⟨accounted.distinct, ?_, ?_, ?_⟩
  · intro handle id behind known
    exact (accounted.given handle id behind known).2.2
  · intro node handle id member known bound
    have noted := (accounted.seeded (node, handle) member id known).2
    rw [Desk.bound?, noted]
    exact boundFor?_compiler counted node bound
  · rintro front back rfl id bound noted
    exact bound?_useAll issuing tidy front back noted

end Session

/-! ## A tree that is compiled twice -/

namespace Example

/-- A window that a table has under a name of its own. -/
def named : Node :=
  ⟨"od", TextMap.empty.insert "key" (.string "pair"), [Node.term "a", Node.term "b"]⟩

def scored : Node := ⟨"feature", TextMap.empty, [named]⟩

def pairCounts : CountTable :=
  ⟨TextMap.empty.insert "pair" ⟨"pair", 4, 3, 2, Collection.empty⟩⟩

def counting : Session :=
  { index := index
    config := { Config.new with scorer := "bm25" }
    registry := registry
    collection := Collection.empty
    counts := some pairCounts
    candidates := none
    sample := none
    cache := OccurrenceCache.empty }

def desk : Session.Desk := ⟨Arena.empty, ⟨Forest.empty, .withBounds⟩⟩

/-- A tree is compiled, another one is refused, and the first is compiled again, from the arena
and anew. -/
def uses : List Session.Use :=
  [.compile true scored, .compile true ⟨"nowhere", TextMap.empty, [scored]⟩,
    .compile true scored, .ask ⟨3⟩ .exhaust, .compile false scored]

def final : Session.Desk := Session.useAll counting uses desk

end Example

namespace Session

theorem estimators_seeded_twice :
    Example.counting.counts = some Example.pairCounts ∧ Example.counting.registry.Issuing ∧
      Example.desk.bench.context.Tidy ∧ Example.final.identity? ⟨11⟩ = some ⟨12⟩ ∧
      (∀ other, Example.final.identity? other = some ⟨12⟩ → other = ⟨11⟩) ∧
      Example.final.bound? ⟨12⟩ = some ⟨3, 3⟩ ∧
      ∃ node child rest figures, (node, ⟨11⟩) ∈ built Example.counting Example.uses Example.desk ∧
        node.children = child :: rest ∧ CountTable.isWindowOperator child.operator = true ∧
        Example.pairCounts.get? child.signature = some figures := by
  have issuing : Example.counting.registry.Issuing :=
    (Registry.withOverrides_builtIn _).issuing
  have tidy : Example.desk.bench.context.Tidy := ScoringContext.withBounds_tidy
  have ends : (Example.final.identity? ⟨11⟩, Example.final.bound? ⟨12⟩) =
      (some ⟨12⟩, some ⟨3, 3⟩) := by cbv
  obtain ⟨named, bounded⟩ := Prod.mk.inj ends
  have behind (handle : Handle) : Example.desk.size ≤ handle.index := Nat.zero_le _
  obtain ⟨distinct, traced, seeded, _⟩ := estimators_seeded rfl issuing tidy Example.uses
  obtain ⟨node, member⟩ := traced ⟨11⟩ ⟨12⟩ (behind _) named
  obtain ⟨child, rest, figures, first, window, found, _⟩ :=
    (seeded node ⟨11⟩ ⟨12⟩ member named ⟨3, 3⟩).mp bounded
  refine ⟨rfl, issuing, tidy, named, fun other known => ?_, bounded,
    node, child, rest, figures, member, first, window, found⟩
  exact distinct other ⟨11⟩ ⟨12⟩ (behind _) (behind _) known named

end Session

end Concordance
