import Concordance.Proofs.Compile.Admission
import Concordance.Proofs.Compile.Evaluation
import Concordance.Proofs.Cursor.Scan

/-!
# Sharing cursors

Trees that are compiled one after the other into one arena share the cursors of equal texts.
A cursor that nobody has moved since it was built still shows all that its tree means, as long
as trees with one text mean the same.  What others do with their cursors meanwhile does not
matter: each tree stands in a stretch of the forest of its own.
-/

namespace Concordance

/-- What is done with one arena: trees of some kind are compiled, each is given its cursor
unless it is refused, and cursors that were given out are moved. -/
inductive Used (compiler : Compiler) (kind : Node → Prop) :
    Arena → Workbench → List (Node × Handle) → List Handle → Prop where
  | start (bench : Workbench) : Used compiler kind Arena.empty bench [] []
  | compile {arena kept : Arena} {bench after : Workbench} {returned : List (Node × Handle)}
      {moved : List Handle} {node : Node} {handle : Handle}
      (used : Used compiler kind arena bench returned moved) (allowed : kind node)
      (compiled : compiler.compile node arena bench = .ok (handle, kept) after) :
      Used compiler kind kept after ((node, handle) :: returned) moved
  | refuse {arena : Arena} {bench after : Workbench} {returned : List (Node × Handle)}
      {moved : List Handle} {node : Node} {cause : Error}
      (used : Used compiler kind arena bench returned moved) (allowed : kind node)
      (refused : compiler.compile node arena bench = .error cause after) :
      Used compiler kind arena after returned moved
  | move {arena : Arena} {bench : Workbench} {returned : List (Node × Handle)}
      {moved : List Handle} {entry : Node × Handle}
      (used : Used compiler kind arena bench returned moved) (given : entry ∈ returned)
      (motion : Forest.Motion) :
      Used compiler kind arena
        { bench with forest := Step.endState (motion.run entry.2) bench.forest } returned
        (entry.2 :: moved)

theorem Used.allowed {compiler : Compiler} {kind : Node → Prop} {arena : Arena}
    {bench : Workbench} {returned : List (Node × Handle)} {moved : List Handle}
    (used : Used compiler kind arena bench returned moved) :
    ∀ entry ∈ returned, kind entry.1 := by
  induction used with
  | start => exact fun _ impossible => nomatch impossible
  | compile _ allowed _ induction => exact List.forall_mem_cons.mpr ⟨allowed, induction⟩
  | refuse _ _ _ induction => exact induction
  | move _ _ _ induction => exact induction

/-- The cursors that were given out belong to accepted trees and track what these mean, each in
a stretch of its own, and those in the arena are among them. -/
structure Shelved (means : Node → Meaning) (accepts : Node → Prop) (arena : Arena)
    (forest : Forest) (returned : List (Node × Handle)) (moved : List Handle)
    (starts : Handle → Nat) : Prop where
  accepted : ∀ entry ∈ returned, accepts entry.1
  tracks : ∀ entry ∈ returned, ∃ floor, (entry.2 ∉ moved → floor = 0) ∧
    Forest.Tracks forest (means entry.1) (starts entry.2) entry.2 floor
  apart : ∀ first ∈ returned, ∀ second ∈ returned, first.2 = second.2 ∨
    first.2.index < starts second.2 ∨ second.2.index < starts first.2
  entries : ∀ entry ∈ arena.entries, ∃ node, (node, entry.2) ∈ returned ∧ node.text = entry.1

namespace Shelved

variable {means : Node → Meaning} {accepts : Node → Prop} {arena : Arena} {forest after : Forest}
  {returned : List (Node × Handle)} {moved : List Handle} {starts : Handle → Nat} {node : Node}
  {handle : Handle}

/-- A tree that is built stands behind all others. -/
theorem fresh (shelved : Shelved means accepts arena forest returned moved starts)
    (accepted : accepts node) (tree : Forest.Grown (means node) forest handle after) {kept : Arena}
    (keeps : ∀ entry ∈ kept.entries, entry ∈ arena.entries ∨ entry = (node.text, handle)) :
    Shelved means accepts kept after ((node, handle) :: returned) moved
      (fun other => if other = handle then forest.cursors.size else starts other) := by
  have behind := tree.tracks.start_le
  have clear : ∀ entry ∈ returned, entry.2.index < forest.cursors.size ∧ entry.2 ≠ handle := by
    intro entry member
    obtain ⟨_, _, tracks⟩ := shelved.tracks entry member
    have bound := tracks.bound
    refine ⟨bound, ?_⟩
    intro same
    rw [same] at bound
    omega
  constructor
  · exact List.forall_mem_cons.mpr ⟨accepted, shelved.accepted⟩
  · intro entry member
    rcases List.mem_cons.mp member with rfl | earlier
    · exact ⟨0, fun _ => rfl, by rw [if_pos rfl]; exact tree.tracks⟩
    · obtain ⟨floor, unmoved, tracks⟩ := shelved.tracks entry earlier
      refine ⟨floor, unmoved, ?_⟩
      rw [if_neg (clear entry earlier).2]
      exact tracks.kept tree.kept
  · intro first isFirst second isSecond
    rcases List.mem_cons.mp isFirst with rfl | inFirst <;>
      rcases List.mem_cons.mp isSecond with rfl | inSecond
    · exact .inl rfl
    · rw [if_pos rfl]
      exact .inr (.inr (clear second inSecond).1)
    · rw [if_pos rfl]
      exact .inr (.inl (clear first inFirst).1)
    · rw [if_neg (clear first inFirst).2, if_neg (clear second inSecond).2]
      exact shelved.apart first inFirst second inSecond
  · intro entry member
    rcases keeps entry member with earlier | rfl
    · obtain ⟨other, isReturned, text⟩ := shelved.entries entry earlier
      exact ⟨other, List.mem_cons_of_mem _ isReturned, text⟩
    · exact ⟨node, List.mem_cons_self, rfl⟩

/-- A tree can be given a cursor from the arena if its text tells what it means. -/
theorem again (shelved : Shelved means accepts arena forest returned moved starts)
    (held : arena.get? node.text = some handle)
    (telling : ∀ entry ∈ returned, entry.1.text = node.text →
      means entry.1 = means node ∧ (accepts entry.1 → accepts node)) :
    Shelved means accepts arena forest ((node, handle) :: returned) moved starts := by
  obtain ⟨other, isReturned, text⟩ := shelved.entries _ (Arena.mem_of_get? held)
  have among : ∀ entry ∈ (node, handle) :: returned, ∃ known ∈ returned, known.2 = entry.2 := by
    intro entry member
    rcases List.mem_cons.mp member with rfl | earlier
    · exact ⟨_, isReturned, rfl⟩
    · exact ⟨entry, earlier, rfl⟩
  obtain ⟨same, accepted⟩ := telling _ isReturned text
  constructor
  · exact List.forall_mem_cons.mpr ⟨accepted (shelved.accepted _ isReturned), shelved.accepted⟩
  · refine List.forall_mem_cons.mpr ⟨?_, shelved.tracks⟩
    obtain ⟨floor, unmoved, tracks⟩ := shelved.tracks _ isReturned
    rw [same] at tracks
    exact ⟨floor, unmoved, tracks⟩
  · intro first isFirst second isSecond
    obtain ⟨one, inOne, sameOne⟩ := among first isFirst
    obtain ⟨two, inTwo, sameTwo⟩ := among second isSecond
    rw [← sameOne, ← sameTwo]
    exact shelved.apart one inOne two inTwo
  · intro entry member
    obtain ⟨known, isKnown, same⟩ := shelved.entries entry member
    exact ⟨known, List.mem_cons_of_mem _ isKnown, same⟩

/-- Cursors stay in order as long as a forest keeps them. -/
theorem stays (shelved : Shelved means accepts arena forest returned moved starts)
    (kept : Forest.Kept forest after) :
    Shelved means accepts arena after returned moved starts := by
  refine ⟨shelved.accepted, ?_, shelved.apart, shelved.entries⟩
  intro entry member
  obtain ⟨floor, unmoved, tracks⟩ := shelved.tracks entry member
  exact ⟨floor, unmoved, tracks.kept kept⟩

/-- Moving one cursor leaves the others where they are. -/
theorem move (shelved : Shelved means accepts arena forest returned moved starts)
    {entry : Node × Handle} (given : entry ∈ returned) (motion : Forest.Motion) :
    Shelved means accepts arena (Step.endState (motion.run entry.2) forest) returned (entry.2 :: moved)
      starts := by
  refine ⟨shelved.accepted, ?_, shelved.apart, shelved.entries⟩
  intro other member
  obtain ⟨_, _, driven⟩ := shelved.tracks entry given
  obtain ⟨_, _, outside⟩ := Forest.Motion.run_keeps driven motion
  obtain ⟨floor, unmoved, tracks⟩ := shelved.tracks other member
  rcases shelved.apart other member entry given with same | clear
  · obtain ⟨higher, there, _⟩ := Forest.Motion.run_keeps tracks motion
    rw [same] at there ⊢
    exact ⟨higher, fun still => absurd List.mem_cons_self still, there⟩
  · refine ⟨floor, fun still => unmoved (fun isMoved => still (List.mem_cons_of_mem _ isMoved)), ?_⟩
    apply tracks.frame outside
    omega

end Shelved

/-- Cursors that track one meaning from the start drain alike. -/
theorem Forest.drain_alike {meaning : Meaning} {forest other : Forest} {start otherStart : Nat}
    {handle rival : Handle} (tracks : Forest.Tracks forest meaning start handle 0)
    (otherTracks : Forest.Tracks other meaning otherStart rival 0) :
    ∃ shown after otherAfter, Forest.drain handle none forest = .ok shown after ∧
      Forest.drain rival none other = .ok shown otherAfter := by
  obtain ⟨matched, after, listed, drained⟩ := Forest.drain_lists tracks
  obtain ⟨_, otherAfter, otherListed, otherDrained⟩ := Forest.drain_lists otherTracks
  cases listed.unique otherListed
  exact ⟨_, after, otherAfter, drained, otherDrained⟩

namespace Compiler

variable {compiler : Compiler} {interval : Nat} {customs : Customs} {contents : Contents}

section Using

variable (serves : compiler.index.Serves interval contents)
  (builtIn : compiler.registry.BuiltIn) {kind : Node → Prop}
  (legible : ∀ node, kind node → node.Legible)
  (countable : ∀ node, kind node → node.Countable compiler.registry customs contents)
  {arena : Arena} {bench : Workbench} {returned : List (Node × Handle)} {moved : List Handle}
  (used : Used compiler kind arena bench returned moved)

include serves builtIn legible countable used

/-- Whatever is compiled and moved, the cursors stay in order. -/
theorem used_shelves :
    ∃ starts, Shelved (Node.meaning compiler.registry customs contents)
      (Node.Admitted compiler.registry customs contents) arena bench.forest returned moved
      starts := by
  induction used with
  | start bench =>
      refine ⟨fun _ => 0, ?_, ?_, ?_, ?_⟩ <;> simp [Arena.empty]
  | @compile _ _ bench _ _ _ node _ used allowed compiled induction =>
      obtain ⟨starts, shelved⟩ := induction
      rcases compile_cases compiled with ⟨_, held, rfl, rfl⟩ | ⟨_, built, keeps⟩
      · refine ⟨starts, shelved.again held ?_⟩
        intro entry member text
        have alike := (legible _ (used.allowed entry member)).alike (legible _ allowed) text
        exact ⟨alike.meaning_eq builtIn, alike.admitted builtIn⟩
      · have settles := build_settles serves builtIn node (countable _ allowed)
          (fun _ => legible _ allowed) bench
        have tree := build_shares serves (builtIn.described customs) node (countable _ allowed)
          (fun _ => (legible _ allowed).telling builtIn) built
        refine ⟨_, shelved.fresh (settles.of_ok built).1 tree ?_⟩
        intro entry member
        rw [keeps] at member
        by_cases shared : compiler.shareNodes = true
        · rw [if_pos shared] at member
          simpa [Arena.insert] using member
        · rw [if_neg shared] at member
          exact .inl member
  | @refuse _ bench _ _ _ node _ used allowed refused induction =>
      obtain ⟨starts, shelved⟩ := induction
      have settles := build_settles serves builtIn node (countable _ allowed)
        (fun _ => legible _ allowed) bench
      exact ⟨starts, shelved.stays (settles.of_error (compile_eq_error refused)).2⟩
  | move used given motion induction =>
      obtain ⟨_, shelved⟩ := induction
      exact ⟨_, shelved.move given motion⟩

end Using

/-- Without sharing, an admitted tree is compiled to a cursor that tracks its meaning. -/
theorem compile_alone (serves : compiler.index.Serves interval contents)
    (builtIn : compiler.registry.BuiltIn) (unshared : compiler.shareNodes = false) {node : Node}
    (countable : node.Countable compiler.registry customs contents)
    (admitted : node.Admitted compiler.registry customs contents) (arena : Arena)
    (bench : Workbench) :
    ∃ handle kept after, compiler.compile node arena bench = .ok (handle, kept) after ∧
      Forest.Grown (node.meaning compiler.registry customs contents) bench.forest handle
        after.forest := by
  have settles := build_settles serves builtIn node countable (by simp [unshared]) bench
  obtain ⟨handle, after, built, _⟩ := settles.exists_ok admitted
  refine ⟨handle, arena, after, ?_, ?_⟩
  · unfold compile
    rw [unshared]
    exact Step.bind_ok _ built
  · exact build_grown serves (builtIn.described customs) unshared node countable built

/-- Sharing does not change what legible trees show: a tree that was given a cursor can be
compiled without sharing, and as long as its cursor is not moved both drain alike. -/
theorem shared_drains {calls : List Index.Call}
    (produced : Index.Produced interval calls compiler.index)
    (builtIn : compiler.registry.BuiltIn) {arena : Arena} {bench : Workbench}
    {returned : List (Node × Handle)} {moved : List Handle}
    (used : Used compiler (fun node => node.Legible ∧ node.Countable compiler.registry
      Customs.nothing (Index.Ledger.ofCalls calls).contents) arena bench returned moved)
    {node : Node} {handle : Handle} (given : (node, handle) ∈ returned)
    (unmoved : handle ∉ moved) (spare : Arena) (fresh : Workbench) :
    ∃ rival kept final,
      { compiler with shareNodes := false }.compile node spare fresh =
        .ok (rival, kept) final ∧
      ∃ shown after otherAfter, Forest.drain handle none bench.forest = .ok shown after ∧
        Forest.drain rival none final.forest = .ok shown otherAfter := by
  obtain ⟨starts, shelved⟩ := used_shelves produced.serves builtIn (fun _ => And.left)
    (fun _ => And.right) used
  obtain ⟨floor, still, tracks⟩ := shelved.tracks _ given
  cases still unmoved
  obtain ⟨rival, kept, final, alone, tree⟩ :=
    @compile_alone { compiler with shareNodes := false } _ _ _ produced.serves builtIn rfl node
      (used.allowed _ given).2 (shelved.accepted _ given) spare fresh
  exact ⟨rival, kept, final, alone, Forest.drain_alike tracks tree.tracks⟩

end Compiler

namespace Example

/-- Two siblings with one text. -/
def twice : Node := ⟨"band", TextMap.empty, [Node.term "a", Node.term "a"]⟩

theorem term_legible {key : String} (plain : Plain key) : (Node.term key).Legible :=
  Node.legible_source (by simp [Plain, IsMark]) plain

theorem twice_legible : twice.Legible := by
  have leaf : (Node.term "a").Legible := term_legible (by simp [Plain, IsMark])
  exact Node.legible_combination (by simp [Plain, IsMark]) (by simp [leaf])

theorem node_legible : node.Legible := by
  have first : (Node.term "a").Legible := term_legible (by simp [Plain, IsMark])
  have second : (Node.term "b").Legible := term_legible (by simp [Plain, IsMark])
  have both : Node.Legible ⟨"both", TextMap.empty, [Node.term "a", Node.term "b"]⟩ :=
    Node.legible_combination (by simp [Plain, IsMark]) (by simp [first, second])
  have counts : Node.Legible
      ⟨"counts", TextMap.empty.insert Node.defaultName (.string "a"), []⟩ :=
    Node.legible_source (by simp [Plain, IsMark]) (by simp [Plain, IsMark])
  exact Node.legible_combination (by simp [Plain, IsMark]) (by simp [both, counts])

theorem twice_countable :
    twice.Countable registry Customs.nothing (Index.Ledger.ofCalls calls).contents := by
  have leaf : (Node.term "a").Countable registry Customs.nothing
      (Index.Ledger.ofCalls calls).contents := Node.leaf_countable produced.serves rfl
  exact Node.combination_countable rfl (.inl rfl) (by simp [twice, leaf])

/-- A tree that the registry refuses. -/
def unknown : Node := ⟨"nowhere", TextMap.empty, []⟩

theorem unknown_legible : unknown.Legible :=
  Node.legible_combination (by simp [Plain, IsMark]) (List.forall_mem_nil _)

theorem unknown_countable :
    unknown.Countable registry Customs.nothing (Index.Ledger.ofCalls calls).contents := by
  refine .intro _ (fun _ impossible => nomatch impossible) ?_
  rw [Node.meaning_unresolved _ _ rfl]
  exact fun _ _ impossible => nomatch impossible

end Example

namespace Compiler

/-- One tree is refused, another one is compiled twice, and the cursor of a third one is moved
on and back. -/
theorem shared_drains_twice :
    let compiler : Compiler := ⟨Example.index, Example.registry, none, "", true⟩
    let kind := fun node : Node => node.Legible ∧ node.Countable compiler.registry
      Customs.nothing (Index.Ledger.ofCalls Example.calls).contents
    Index.Produced 1 Example.calls compiler.index ∧ compiler.registry.BuiltIn ∧
      ∃ arena bench handle other,
        let returned := [(Example.twice, handle), (Example.node, other), (Example.twice, handle)]
        Used compiler kind arena bench returned [other, other] ∧ handle ∉ [other, other] ∧
        ∃ rival kept final,
          { compiler with shareNodes := false }.compile Example.twice Arena.empty
            ⟨Forest.empty, ScoringContext.new⟩ = .ok (rival, kept) final ∧
          ∃ shown after otherAfter, Forest.drain handle none bench.forest = .ok shown after ∧
            Forest.drain rival none final.forest = .ok shown otherAfter := by
  intro compiler kind
  have builtIn : compiler.registry.BuiltIn := Registry.withOverrides_builtIn _
  refine ⟨Example.produced, builtIn, ?_⟩
  have refused : compiler.compile Example.unknown Arena.empty
      ⟨Forest.empty, ScoringContext.new⟩ =
      .error (.unknownOperator "nowhere") ⟨Forest.empty, ⟨none, 1⟩⟩ := rfl
  have runs : Step.evaluate (do
      let first ← compiler.compile Example.twice Arena.empty
      let second ← compiler.compile Example.node first.2
      let third ← compiler.compile Example.twice second.2
      pure (decide (third.1 = first.1) && decide (first.1 ≠ second.1)))
      ⟨Forest.empty, ⟨none, 1⟩⟩ = .ok true := by cbv
  obtain ⟨_, run⟩ := Step.evaluate_eq_ok runs
  obtain ⟨⟨handle, _⟩, _, first, run⟩ := Step.bind_eq_ok run
  obtain ⟨⟨other, _⟩, _, second, run⟩ := Step.bind_eq_ok run
  obtain ⟨⟨again, arena⟩, bench, third, run⟩ := Step.bind_eq_ok run
  injection run with places
  obtain ⟨same, apart⟩ := Bool.and_eq_true_iff.mp places
  cases of_decide_eq_true same
  have twice : kind Example.twice := ⟨Example.twice_legible, Example.twice_countable⟩
  have node : kind Example.node := ⟨Example.node_legible, Example.countable⟩
  have unknown : kind Example.unknown := ⟨Example.unknown_legible, Example.unknown_countable⟩
  have compiled : Used compiler kind arena bench
      [(Example.twice, handle), (Example.node, other), (Example.twice, handle)] [] :=
    ((((Used.start _).refuse unknown refused).compile twice first).compile node second).compile
      twice third
  have isOther : (Example.node, other) ∈
      [(Example.twice, handle), (Example.node, other), (Example.twice, handle)] := by simp
  have used := (compiled.move isOther (.moveTo Example.second)).move isOther
    (.moveTo Example.first)
  have unmoved : handle ∉ [other, other] := by simpa using of_decide_eq_true apart
  exact ⟨_, _, handle, other, used, unmoved,
    shared_drains Example.produced builtIn used (by simp) unmoved Arena.empty _⟩

end Compiler

namespace Example

/-- A key that looks like two children. -/
def forged : String := "a() #extents:b"

def forgedCalls : List Index.Call :=
  [.beginKey [97], .beginDocument first, .addOccurrence 0, .beginKey (Key.ofText forged),
    .beginDocument second, .addOccurrence 0, .beginKey [98], .beginDocument first,
    .addOccurrence 1]

def forgedIndex : Index :=
  (Index.Ledger.ofCalls forgedCalls).index 1 Index.KeyFormat.plain "forged"

def pair : Node := ⟨"band", TextMap.empty, [Node.term "a", Node.term "b"]⟩

def single : Node := ⟨"band", TextMap.empty, [Node.term forged]⟩

theorem forged_produced : Index.Produced 1 forgedCalls forgedIndex := by
  obtain ⟨written, _, finished⟩ := @Index.finished_of_length 1 forgedCalls Index.KeyFormat.plain 187
    (by cbv) (by decide) (by decide) (by decide)
  exact Index.Produced.of_finished finished Index.KeyFormat.plain_faithful "forged"

theorem forged_countable {children : List String} :
    Node.Countable registry Customs.nothing (Index.Ledger.ofCalls forgedCalls).contents
      ⟨"band", TextMap.empty, children.map Node.term⟩ := by
  have leaf : ∀ key, (Node.term key).Countable registry Customs.nothing
      (Index.Ledger.ofCalls forgedCalls).contents :=
    fun key => Node.leaf_countable forged_produced.serves rfl
  exact Node.combination_countable rfl (.inl rfl) (by simp [leaf])

/-- The two trees have one text.  Alone they match different documents. -/
theorem single_drains :
    Step.evaluate (do
      let result ← (Compiler.mk forgedIndex registry none "" false).compile single Arena.empty
      let shown ← Workbench.onForest (Forest.drain result.1 none)
      pure (shown.map Forest.Shown.doc)) ⟨Forest.empty, ScoringContext.new⟩ = .ok [second] := by
  cbv

theorem single_drains_shared :
    Step.evaluate (do
      let earlier ← (Compiler.mk forgedIndex registry none "" true).compile pair Arena.empty
      let result ← (Compiler.mk forgedIndex registry none "" true).compile single earlier.2
      let shown ← Workbench.onForest (Forest.drain result.1 none)
      pure (shown.map Forest.Shown.doc)) ⟨Forest.empty, ScoringContext.new⟩ = .ok [first] := by
  cbv

end Example

namespace Compiler

/-- The cursor of a tree with a forged key is that of another tree. -/
theorem shared_drains_forged :
    ¬∀ (interval : Nat) (calls : List Index.Call) (compiler : Compiler) (arena : Arena)
      (bench : Workbench) (returned : List (Node × Handle)) (moved : List Handle) (node : Node)
      (handle : Handle) (spare kept : Arena) (fresh final : Workbench) (rival : Handle),
      Index.Produced interval calls compiler.index → compiler.registry.BuiltIn →
      Used compiler (fun node => node.Countable compiler.registry Customs.nothing
        (Index.Ledger.ofCalls calls).contents) arena bench returned moved →
      (node, handle) ∈ returned → handle ∉ moved →
      { compiler with shareNodes := false }.compile node spare fresh =
        .ok (rival, kept) final →
      ∃ shown after otherAfter, Forest.drain handle none bench.forest = .ok shown after ∧
        Forest.drain rival none final.forest = .ok shown otherAfter := by
  intro alike
  obtain ⟨_, run⟩ := Step.evaluate_eq_ok Example.single_drains
  obtain ⟨⟨rival, kept⟩, final, alone, run⟩ := Step.bind_eq_ok run
  obtain ⟨expected, _, ran, run⟩ := Step.bind_eq_ok run
  obtain ⟨_, drained, _⟩ := Step.onPart_eq_ok ran
  injection run with expectedDocs
  obtain ⟨_, run⟩ := Step.evaluate_eq_ok Example.single_drains_shared
  obtain ⟨⟨_, arena⟩, _, first, run⟩ := Step.bind_eq_ok run
  obtain ⟨⟨handle, arena⟩, bench, second, run⟩ := Step.bind_eq_ok run
  obtain ⟨shown, _, ran, run⟩ := Step.bind_eq_ok run
  obtain ⟨_, sharedDrained, _⟩ := Step.onPart_eq_ok ran
  injection run with shownDocs
  have used := ((Used.start _).compile (@Example.forged_countable ["a", "b"]) first).compile
    (@Example.forged_countable [Example.forged]) second
  obtain ⟨common, _, _, one, other⟩ := alike 1 Example.forgedCalls _ arena bench _ []
    Example.single handle Arena.empty kept _ final rival Example.forged_produced
    (Registry.withOverrides_builtIn _) used List.mem_cons_self (by simp) alone
  cases sharedDrained.symm.trans one
  cases drained.symm.trans other
  have same := shownDocs.symm.trans expectedDocs
  exact absurd same (by decide)

end Compiler

end Concordance
