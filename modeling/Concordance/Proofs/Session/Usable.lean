import Concordance.Proofs.Compile.Usable
import Concordance.Proofs.Session.Desk

/-!
# Extents for whoever asks

Over the index of a writer every cursor of every tree shows extents that a window around it can
search, wherever the calls on it and on its parents have left it.
-/

namespace Concordance

namespace Session

variable {session : Session} {interval : Nat} {calls : List Index.Call} {desk : Desk}

theorem use_staysUsable {breaks : Error → Prop}
    (supplies : session.index.Supplies .stored breaks) (builtIn : session.registry.BuiltIn)
    (use : Use) : Workbench.Related Forest.StaysUsable desk.bench (use.run session desk).bench := by
  cases use with
  | ask handle call => exact Forest.StaysUsable.conserved.call handle call desk.bench.forest
  | compile shareNodes node =>
      rw [run_compile, compile_endState]
      cases if (session.compiler shareNodes).shareNodes then desk.arena.get? node.text
          else none with
      | some handle => exact Forest.StaysUsable.conserved.refl desk.bench.forest
      | none =>
          refine Compiler.build_conserves Forest.StaysUsable.conserved ?_ node desk.bench
          intro request same
          have stored : request.index.Supplies .stored breaks := same ▸ supplies
          exact Forest.registry_staysUsable builtIn stored

theorem useAll_staysUsable {breaks : Error → Prop}
    (supplies : session.index.Supplies .stored breaks) (builtIn : session.registry.BuiltIn)
    (uses : List Use) :
    Workbench.Related Forest.StaysUsable desk.bench (useAll session uses desk).bench := by
  induction uses generalizing desk with
  | nil => exact Forest.StaysUsable.conserved.refl desk.bench.forest
  | cons use uses induction =>
      have first := @use_staysUsable session desk _ supplies builtIn use
      exact Forest.StaysUsable.conserved.trans _ _ _ first induction

/-- Trees are compiled over the index of a writer, in vain or not, and cursors are called in any
order and with any success.  Whatever cursor then stands on a document and shows extents has some
there, each the right way round and in ascending order of their starts.  They are as many as the
cursor counts, as long as a count can tell them, and those of a synonym are all different and in
ascending order. -/
theorem extents_usable (produced : Index.Produced interval calls session.index)
    (builtIn : session.registry.BuiltIn) (context : ScoringContext) (uses : List Use)
    (handle : Handle) :
    let forest := (useAll session uses ⟨Arena.empty, ⟨Forest.empty, context⟩⟩).bench.forest
    (forest.capabilities handle).extents = true → forest.isDone handle = false →
      ∃ extents, forest.extents handle = .ok extents ∧ extents ≠ [] ∧
        Extent.WellOrdered extents ∧
        (extents.length < 4294967296 → forest.count handle = .ok extents.length) ∧
        ((forest.cursor handle).combination? = some .synonym → Extent.Strict extents) := by
  intro forest
  have usable : forest.Usable :=
    useAll_staysUsable produced.serves.supplies builtIn uses Forest.usable_empty
  exact usable.shows

end Session

/-! ## Windows of which two start at one position -/

namespace Example

/-- A synonym inside of a window. -/
def nested : Node :=
  ⟨"uw", TextMap.empty, [⟨"syn", TextMap.empty, [Node.term "a", Node.term "b"]⟩, Node.term "a"]⟩

/-- The tree is compiled, and its root is moved to the second document. -/
def searches : List Session.Use :=
  [.compile true nested, .ask ⟨4⟩ (.move (.moveTo second))]

def searched : Forest := (Session.useAll counting searches desk).bench.forest

end Example

namespace Session

theorem extents_usable_nested :
    Index.Produced 1 Example.calls Example.counting.index ∧
      Example.counting.registry.BuiltIn ∧
      (Example.searched.capabilities ⟨4⟩).extents = true ∧
      Example.searched.isDone ⟨4⟩ = false ∧
      (Example.searched.capabilities ⟨2⟩).extents = true ∧
      Example.searched.isDone ⟨2⟩ = false ∧
      (∃ windows, Example.searched.extents ⟨4⟩ = .ok windows ∧ windows ≠ [] ∧
        Extent.WellOrdered windows ∧ Example.searched.count ⟨4⟩ = .ok 2) ∧
      ∃ extents, Example.searched.extents ⟨2⟩ = .ok extents ∧ Extent.Strict extents := by
  have builtIn : Example.counting.registry.BuiltIn := Registry.withOverrides_builtIn _
  have states : ((Example.searched.capabilities ⟨4⟩).extents, Example.searched.isDone ⟨4⟩,
      (Example.searched.extents ⟨4⟩).map List.length) = (true, false, .ok 2) ∧
      ((Example.searched.capabilities ⟨2⟩).extents, Example.searched.isDone ⟨2⟩,
        (Example.searched.cursor ⟨2⟩).combination?) = (true, false, some .synonym) := by
    constructor <;> cbv
  simp only [Prod.mk.injEq] at states
  obtain ⟨⟨offersOuter, runsOuter, long⟩, offersInner, runsInner, synonym⟩ := states
  have usable := @extents_usable Example.counting 1 Example.calls Example.produced builtIn
    .withBounds Example.searches
  obtain ⟨windows, shown, some?, ordered, counted, _⟩ := usable ⟨4⟩ offersOuter runsOuter
  obtain ⟨extents, shownInner, _, _, _, strict⟩ := usable ⟨2⟩ offersInner runsInner
  have both : windows.length = 2 := by
    rw [show Example.searched.extents ⟨4⟩ = .ok windows from shown] at long
    exact Except.ok.inj long
  rw [both] at counted
  exact ⟨Example.produced, builtIn, offersOuter, runsOuter, offersInner, runsInner,
    ⟨windows, shown, some?, ordered, counted (by decide)⟩, extents, shownInner, strict synonym⟩

end Session

end Concordance
