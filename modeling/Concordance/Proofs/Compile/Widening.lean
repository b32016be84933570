import Concordance.Proofs.Compile.Presence
import Concordance.Proofs.Compile.Proximity
import Concordance.Proofs.Window.Widening

/-!
# Widening a query

A node for a window that is given a greater width is still built, and it matches all documents
that it matched before.  For an ordered window this holds as far as the extents of the children
between the first and the last end in the order in which they start.
-/

namespace Concordance

/-! ## The same window with a greater width -/

/-- A node for a window that is another one but for a width that is no less. -/
structure Node.Widened (order : Window.Order) (node other : Node) : Prop where
  operator : other.operator = node.operator
  children : other.children = node.children
  wider : node.windowWidth order ≤ other.windowWidth order
  asks : other.AsksWidth

namespace Node.Widened

variable {order : Window.Order} {node other : Node} (widened : node.Widened order other)

include widened

theorem telling {means : Node → Meaning} (telling : node.Telling means) : other.Telling means := by
  refine .intro other ?_ ?_
  · rw [widened.children]
    exact telling.inside
  · rw [widened.children]
    exact telling.siblings

/-- What a window offers does not depend on its width. -/
theorem offer_eq {registry : Registry} {shared : Bool} {index : Index} {offer : Offer}
    (resolved : registry.resolve? node.operator = some (.window order))
    (offered : node.offer registry shared index = .ok offer) :
    other.offer registry shared index = .ok offer := by
  obtain ⟨_, parameters, _⟩ := node
  obtain ⟨operator, otherParameters, children⟩ := other
  obtain ⟨rfl, rfl, _, asks⟩ := widened
  rw [Node.offer] at offered ⊢
  obtain ⟨below, known, offered⟩ := Step.ok_of_bind offered
  rw [resolved] at offered
  rw [known, Step.ok_bind, resolved, ← (granted_of_ite offered).2]
  exact if_pos asks

end Node.Widened

/-- A window that is wider matches what a narrower one matches. -/
theorem Combination.window_widens {children : List Meaning} {order : Window.Order}
    {narrow wide : Nat} (less : narrow ≤ wide)
    (sound : ∀ child ∈ children, child.Sound ∧ child.capabilities.extents = true) {doc : DocId}
    (steady : ∀ founds, AllFound children doc founds →
      Window.Steady order (founds.map Match.extents))
    (matched : (((window order narrow).meaning children).found doc).isSome = true) :
    (((window order wide).meaning children).found doc).isSome = true := by
  obtain ⟨founds, all, occupied⟩ := window_found_iff.mp matched
  obtain ⟨few, many, found, foundWide, part⟩ :=
    Window.find_widens order less (extents_wellOrdered sound all) (steady founds all)
  refine window_found_iff.mpr ⟨founds, all, ?_⟩
  rw [found] at occupied
  rw [foundWide]
  intro empty
  rw [show many = [] from empty] at part
  exact occupied (List.sublist_nil.mp part)

namespace Compiler

variable {compiler : Compiler} {interval : Nat} {calls : List Index.Call}

/-- A window that is built is built with a greater width too, wherever that is tried. -/
theorem build_widened (produced : Index.Produced interval calls compiler.index)
    (builtIn : compiler.registry.BuiltIn) {order : Window.Order} {node other : Node}
    (resolved : compiler.registry.resolve? node.operator = some (.window order))
    (widened : node.Widened order other) {bench after : Workbench} {handle : Handle}
    (built : compiler.build node bench = .ok handle after) (otherBench : Workbench) :
    ∃ otherHandle otherAfter, compiler.build other otherBench = .ok otherHandle otherAfter := by
  obtain ⟨offer, offered⟩ :=
    (exists_build_iff produced builtIn node bench).mp ⟨handle, after, built⟩
  exact (exists_build_iff produced builtIn other otherBench).mpr
    ⟨offer, widened.offer_eq resolved offered⟩

/-- Over well-ordered lists a wider search finds a window where a narrower one does, and a
window node that is compiled with a greater width matches the documents that it matched with
a smaller one. -/
theorem compile_widens (produced : Index.Produced interval calls compiler.index)
    (builtIn : compiler.registry.BuiltIn) (order : Window.Order) :
    (∀ narrow wide, narrow ≤ wide → ∀ lists : List (List Extent),
      (∀ list ∈ lists, Extent.WellOrdered list) → Window.Steady order lists →
      ∃ few many, Window.find order narrow lists = .ok few ∧
        Window.find order wide lists = .ok many ∧ (few ≠ [] → many ≠ [])) ∧
    ∀ (node other : Node) (arena otherArena kept : Arena) (bench otherBench after : Workbench)
      (handle : Handle),
      let means := Node.meaning compiler.registry Customs.nothing
        (Index.Ledger.ofCalls calls).contents
      compiler.registry.resolve? node.operator = some (.window order) →
      node.Widened order other →
      (∀ window ∈ [node, other], window.Countable compiler.registry Customs.nothing
        (Index.Ledger.ofCalls calls).contents) →
      (compiler.shareNodes = true → node.Telling means ∧ arena.get? node.text = none ∧
        otherArena.get? other.text = none) →
      compiler.compile node arena bench = .ok (handle, kept) after →
      ∃ otherHandle otherKept otherAfter,
        compiler.compile other otherArena otherBench = .ok (otherHandle, otherKept) otherAfter ∧
        ∀ (motions : List Forest.Motion) (doc : DocId),
          (motions.map Forest.Motion.position).Pairwise (· ≤ ·) →
          (∀ motion ∈ motions, motion.position ≤ doc.val) →
          (∀ founds, AllFound (node.children.map means) doc founds →
            Window.Steady order (founds.map Match.extents)) →
          ∃ middle moved otherMiddle otherMoved,
            Forest.Motion.runAll handle motions after.forest = .ok () middle ∧
            Forest.moveTo handle doc middle = .ok () moved ∧
            Forest.Motion.runAll otherHandle motions otherAfter.forest = .ok () otherMiddle ∧
            Forest.moveTo otherHandle doc otherMiddle = .ok () otherMoved ∧
            (moved.hasMatch handle doc = true → otherMoved.hasMatch otherHandle doc = true) := by
  constructor
  · intro narrow wide less lists wellOrdered steady
    obtain ⟨few, many, found, foundWide, part⟩ :=
      Window.find_widens order less wellOrdered steady
    refine ⟨few, many, found, foundWide, ?_⟩
    rintro occupied rfl
    exact occupied (List.sublist_nil.mp part)
  · intro node other arena otherArena kept bench otherBench after handle means resolved widened
      countable sharing compiled
    have described := builtIn.described Customs.nothing
    have countableNode := countable node List.mem_cons_self
    have countableOther := countable other (List.mem_cons_of_mem _ List.mem_cons_self)
    have telling := fun shared => (sharing shared).1
    have new := fun shared => (sharing shared).2.1
    have newOther := fun shared => (sharing shared).2.2
    have built := built_of_new new compiled
    have sound := window_children produced.serves described countableNode telling resolved built
    obtain ⟨otherHandle, otherAfter, builtOther⟩ :=
      build_widened produced builtIn resolved widened built otherBench
    have compiledOther := compile_fresh newOther otherBench
    rw [builtOther] at compiledOther
    refine ⟨otherHandle, _, otherAfter, compiledOther, ?_⟩
    intro motions doc ascending reached steady
    obtain ⟨middle, moved, run, sought, same⟩ := compile_hasMatch produced described
      countableNode telling new compiled ascending reached
    obtain ⟨otherMiddle, otherMoved, otherRun, otherSought, otherSame⟩ :=
      compile_hasMatch produced described countableOther
        (fun shared => widened.telling (telling shared)) newOther compiledOther ascending reached
    refine ⟨middle, moved, otherMiddle, otherMoved, run, sought, otherRun, otherSought, ?_⟩
    rw [← Node.meanings_eq_map] at steady
    rw [same, otherSame, Node.meaning_eq _ _ resolved,
      Node.meaning_eq _ _ (widened.operator ▸ resolved), widened.children]
    exact Combination.window_widens widened.wider sound steady

/-- A node that is widened keeps its match in the second document. -/
theorem compile_widens_near :
    let compiler : Compiler := ⟨Example.nestedIndex, Example.registry, none, "", false⟩
    let wider : Node := ⟨"uw", TextMap.empty.insert Node.defaultName (.long 9),
      Example.near.children⟩
    Index.Produced 1 Example.nestedCalls compiler.index ∧ compiler.registry.BuiltIn ∧
      Example.near.Widened .unordered wider ∧
      ∃ handle otherHandle kept otherKept after otherAfter,
        compiler.compile Example.near Arena.empty ⟨Forest.empty, ScoringContext.new⟩ =
          .ok (handle, kept) after ∧
        compiler.compile wider Arena.empty ⟨Forest.empty, ScoringContext.new⟩ =
          .ok (otherHandle, otherKept) otherAfter ∧
        ∃ moved otherMoved,
          Forest.moveTo handle Example.second after.forest = .ok () moved ∧
          Forest.moveTo otherHandle Example.second otherAfter.forest = .ok () otherMoved ∧
          moved.hasMatch handle Example.second = true ∧
          otherMoved.hasMatch otherHandle Example.second = true := by
  intro compiler wider
  have builtIn : compiler.registry.BuiltIn := Registry.withOverrides_builtIn _
  have widened : Example.near.Widened .unordered wider := ⟨rfl, rfl, by decide, by decide⟩
  refine ⟨Example.nested_produced, builtIn, widened, ?_⟩
  have stands : Step.evaluate (do
      let result ← compiler.compile Example.near Arena.empty
      Workbench.onForest (Forest.moveTo result.1 Example.second)
      let bench ← get
      pure (bench.forest.hasMatch result.1 Example.second)) ⟨Forest.empty, ScoringContext.new⟩ =
      .ok true := by cbv
  obtain ⟨final, run⟩ := Step.evaluate_eq_ok stands
  obtain ⟨result, after, compiled, run⟩ := Step.bind_eq_ok run
  obtain ⟨_, _, ran, run⟩ := Step.bind_eq_ok run
  obtain ⟨moved, sought, rfl⟩ := Step.onPart_eq_ok ran
  injection run with matched
  have countable : ∀ window ∈ [Example.near, wider], window.Countable compiler.registry
      Customs.nothing (Index.Ledger.ofCalls Example.nestedCalls).contents :=
    List.forall_mem_cons.mpr ⟨Example.near_countable,
      List.forall_mem_singleton.mpr (Example.nested_countable rfl rfl)⟩
  have alone : compiler.shareNodes = true → Example.near.Telling (Node.meaning compiler.registry
      Customs.nothing (Index.Ledger.ofCalls Example.nestedCalls).contents) ∧
        Arena.empty.get? Example.near.text = none ∧ Arena.empty.get? wider.text = none :=
    fun shared => by cases shared
  obtain ⟨otherHandle, otherKept, otherAfter, compiledOther, widens⟩ :=
    (compile_widens Example.nested_produced builtIn .unordered).2 Example.near wider Arena.empty
      Arena.empty _ _ ⟨Forest.empty, ScoringContext.new⟩ _ _ rfl widened countable
      alone compiled
  obtain ⟨_, _, _, otherMoved, unmoved, also, otherUnmoved, otherSought, keeps⟩ :=
    widens [] Example.second .nil (List.forall_mem_nil _)
      fun _ _ unordered => by cases unordered
  cases unmoved
  cases otherUnmoved
  rw [sought] at also
  cases also
  exact ⟨_, otherHandle, _, otherKept, after, otherAfter, compiled, compiledOther, moved,
    otherMoved, sought, otherSought, matched, keeps matched⟩

end Compiler

end Concordance
