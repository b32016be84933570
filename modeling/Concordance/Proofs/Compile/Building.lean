import Concordance.Compile.Basic
import Concordance.Proofs.Compile.Implementation

/-!
# Building the cursors of a query

Compiling a tree of nodes grows a tree of cursors that tracks what the nodes
mean over the contents of the index.  With sharing, siblings with one text
become one cursor; that does no harm as long as they mean the same.
-/

namespace Concordance

/-! ## Trees of nodes -/

/-- Whether the extents of all matches of every node of a tree can be counted in 32
bits. -/
inductive Node.Countable (registry : Registry) (customs : Customs) (contents : Contents) :
    Node → Prop where
  | intro (node : Node)
      (children : ∀ child ∈ node.children, Countable registry customs contents child)
      (here : (node.meaning registry customs contents).Countable) :
      Countable registry customs contents node

namespace Node.Countable

variable {registry : Registry} {customs : Customs} {contents : Contents} {node : Node}

theorem inside (countable : node.Countable registry customs contents) :
    ∀ child ∈ node.children, child.Countable registry customs contents := by
  cases countable
  assumption

theorem here (countable : node.Countable registry customs contents) :
    (node.meaning registry customs contents).Countable := by
  cases countable
  assumption

end Node.Countable

/-- Whether siblings with one text mean the same, everywhere in a tree. -/
inductive Node.Telling (means : Node → Meaning) : Node → Prop where
  | intro (node : Node) (children : ∀ child ∈ node.children, Telling means child)
      (siblings : ∀ first ∈ node.children, ∀ second ∈ node.children,
        first.text = second.text → means first = means second) :
      Telling means node

theorem Node.Telling.inside {means : Node → Meaning} {node : Node} (telling : node.Telling means) :
    ∀ child ∈ node.children, child.Telling means := by
  cases telling
  assumption

theorem Node.Telling.siblings {means : Node → Meaning} {node : Node}
    (telling : node.Telling means) :
    ∀ first ∈ node.children, ∀ second ∈ node.children,
      first.text = second.text → means first = means second := by
  cases telling
  assumption

theorem Arena.mem_of_get? {arena : Arena} {text : String} {handle : Handle}
    (held : arena.get? text = some handle) : (text, handle) ∈ arena.entries := by
  obtain ⟨entry, found, rfl⟩ := Option.map_eq_some_iff.mp held
  have same := Array.find?_some found
  have member := Array.mem_of_find?_eq_some found
  simp only [beq_iff_eq] at same
  exact same ▸ member

namespace Compiler

variable {compiler : Compiler} {interval : Nat} {customs : Customs} {contents : Contents}

theorem allocate_run (bench : Workbench) :
    Workbench.allocate bench =
      .ok bench.context.allocate.1 { bench with context := bench.context.allocate.2 } := rfl

theorem seedBound_run (children : List Node) (handle : Handle) (bench : Workbench) :
    ∃ after, compiler.seedBound children handle bench = .ok () after := ⟨_, rfl⟩

theorem seedBound_eq_ok {children : List Node} {handle : Handle} {bench after : Workbench}
    (seeded : compiler.seedBound children handle bench = .ok () after) :
    after.forest = bench.forest := by
  unfold seedBound at seeded
  rw [Step.modify_run] at seeded
  cases seeded
  split <;> rfl

/-- Building a node builds its children and then hands them to the registry. -/
theorem build_eq_ok {node : Node} {bench after : Workbench} {handle : Handle}
    (built : compiler.build node bench = .ok handle after) :
    ∃ handles middle request,
      compiler.buildChildren [] node.children bench = .ok handles middle ∧
      request.node = node ∧ request.children = handles ∧ request.index = compiler.index ∧
      compiler.registry.build request middle.forest = .ok handle after.forest := by
  obtain ⟨operator, parameters, children⟩ := node
  rw [build] at built
  obtain ⟨handles, middle, compiled, built⟩ := Step.bind_eq_ok built
  rw [Step.bind_ok _ (allocate_run middle)] at built
  obtain ⟨root, _, rooted, built⟩ := Step.bind_eq_ok built
  obtain ⟨forest, made, rfl⟩ := Step.onPart_eq_ok rooted
  obtain ⟨_, _, seeded, built⟩ := Step.bind_eq_ok built
  cases built
  rw [seedBound_eq_ok seeded]
  refine ⟨handles, middle, _, compiled, ?_, ?_, ?_, made⟩ <;> rfl

/-- Siblings are built from left to right: one with a known text shares the tree under it, and
any other one gets a tree of its own, which those behind it may share. -/
theorem buildChildren_cons_eq_ok {child : Node} {children : List Node}
    {known : List (String × Handle)} {bench after : Workbench} {handles : List Handle}
    (built : compiler.buildChildren known (child :: children) bench = .ok handles after) :
    (∃ handle others, compiler.shareNodes = true ∧ known.lookup child.text = some handle ∧
      compiler.buildChildren known children bench = .ok others after ∧
      handles = handle :: others) ∨
    ∃ root middle others, compiler.build child bench = .ok root middle ∧
      compiler.buildChildren ((child.text, root) :: known) children middle = .ok others after ∧
      handles = root :: others := by
  rw [buildChildren] at built
  cases held : if compiler.shareNodes then known.lookup child.text else none with
  | some handle =>
      rw [held] at built
      obtain ⟨shared, held⟩ := Option.ite_none_right_eq_some.mp held
      obtain ⟨others, _, compiled, built⟩ := Step.bind_eq_ok built
      cases built
      exact .inl ⟨handle, others, shared, held, compiled, rfl⟩
  | none =>
      rw [held] at built
      obtain ⟨root, middle, rooted, built⟩ := Step.bind_eq_ok built
      obtain ⟨others, _, compiled, built⟩ := Step.bind_eq_ok built
      cases built
      exact .inr ⟨root, middle, others, rooted, compiled, rfl⟩

/-- The trees of some siblings stand behind what a forest held before, and those known
under a text are trees of siblings that have it. -/
structure Raised (means : Node → Meaning) (siblings : List Node) (before : Forest)
    (known : List (String × Handle)) (handles : List Handle) (after : Forest)
    (meanings : Handle → Meaning) (starts : Handle → Nat) : Prop where
  grown : Forest.GrownAll (siblings.map means) before handles after meanings starts
  listed : ∀ entry ∈ known, entry.2 ∈ handles ∧
    ∃ sibling ∈ siblings, sibling.text = entry.1 ∧ meanings entry.2 = means sibling

theorem raised_nil {means : Node → Meaning} (forest : Forest) :
    Raised means [] forest [] [] forest (fun _ => .absent) (fun _ => 0) :=
  ⟨Forest.grownAll_nil forest, fun _ impossible => nomatch impossible⟩

namespace Raised

variable {means : Node → Meaning} {siblings : List Node} {before middle after : Forest}
  {known : List (String × Handle)} {handles : List Handle} {handle : Handle} {child : Node}
  {meanings : Handle → Meaning} {starts : Handle → Nat}

theorem fresh (raised : Raised means siblings before known handles middle meanings starts)
    (tree : Forest.Grown (means child) middle handle after) :
    ∃ meanings starts, Raised means (siblings ++ [child]) before ((child.text, handle) :: known)
      (handles ++ [handle]) after meanings starts := by
  have grown := raised.grown.snoc tree
  have behind := tree.tracks.start_le
  rw [← List.map_singleton, ← List.map_append] at grown
  refine ⟨_, _, grown, ?_⟩
  intro entry member
  rcases List.mem_cons.mp member with rfl | earlier
  · exact ⟨by simp, child, by simp, rfl, if_pos rfl⟩
  · obtain ⟨isHandle, sibling, isSibling, text, meant⟩ := raised.listed entry earlier
    have bound := (raised.grown.tracks entry.2 isHandle).bound
    have different : entry.2 ≠ handle := by
      intro same
      rw [same] at bound
      omega
    refine ⟨List.mem_append_left _ isHandle, sibling, List.mem_append_left _ isSibling, text, ?_⟩
    rw [if_neg different]
    exact meant

theorem again (raised : Raised means siblings before known handles after meanings starts)
    (telling : ∀ sibling ∈ siblings, sibling.text = child.text → means sibling = means child)
    (held : known.lookup child.text = some handle) :
    Raised means (siblings ++ [child]) before known (handles ++ [handle]) after meanings
      starts := by
  obtain ⟨_, _, rfl, _⟩ := List.lookup_eq_some_iff.mp held
  obtain ⟨isHandle, sibling, isSibling, text, meant⟩ :=
    raised.listed (child.text, handle) (by simp)
  have grown := raised.grown.again isHandle
  rw [meant, telling sibling isSibling text, ← List.map_singleton, ← List.map_append] at grown
  refine ⟨grown, ?_⟩
  intro entry member
  obtain ⟨isHandle, sibling, isSibling, rest⟩ := raised.listed entry member
  exact ⟨List.mem_append_left _ isHandle, sibling, List.mem_append_left _ isSibling, rest⟩

end Raised

mutual

/-- Compiling a node grows a tree that tracks its meaning, also with sharing if texts tell
siblings apart. -/
theorem build_shares (serves : compiler.index.Serves interval contents)
    (described : compiler.registry.Described customs) :
    (node : Node) → (countable : node.Countable compiler.registry customs contents) →
    (telling : compiler.shareNodes = true →
      node.Telling (Node.meaning compiler.registry customs contents)) →
    {bench after : Workbench} → {handle : Handle} →
    (built : compiler.build node bench = .ok handle after) →
    Forest.Grown (node.meaning compiler.registry customs contents) bench.forest handle
      after.forest
  | ⟨operator, parameters, children⟩, .intro _ countable here, telling, bench, after, handle,
      built => by
    obtain ⟨_, middle, request, compiled, same, rfl, index, made⟩ := build_eq_ok built
    obtain ⟨meanings, starts, grown⟩ := buildChildren_shares serves described children countable
      (fun shared => (telling shared).inside) (raised_nil bench.forest)
      (fun shared => (telling shared).siblings) compiled
    rw [List.nil_append, List.nil_append, ← Node.meanings_eq_map] at grown
    have below : request.node.children = children := congrArg Node.children same
    rw [← below] at grown
    rw [← same] at here ⊢
    exact Registry.build_grown (index ▸ serves) here grown described made

theorem buildChildren_shares (serves : compiler.index.Serves interval contents)
    (described : compiler.registry.Described customs) :
    (children : List Node) →
    (countable : ∀ child ∈ children, child.Countable compiler.registry customs contents) →
    (inside : compiler.shareNodes = true → ∀ child ∈ children,
      child.Telling (Node.meaning compiler.registry customs contents)) →
    {front : List Node} → {before : Forest} → {known : List (String × Handle)} →
    {earlier : List Handle} → {meanings : Handle → Meaning} → {starts : Handle → Nat} →
    {bench after : Workbench} → {handles : List Handle} →
    (raised : Raised (Node.meaning compiler.registry customs contents) front before known
      earlier bench.forest meanings starts) →
    (siblings : compiler.shareNodes = true → ∀ first ∈ front ++ children,
      ∀ second ∈ front ++ children, first.text = second.text →
        first.meaning compiler.registry customs contents =
          second.meaning compiler.registry customs contents) →
    (built : compiler.buildChildren known children bench = .ok handles after) →
    ∃ meanings starts, Forest.GrownAll
      ((front ++ children).map (Node.meaning compiler.registry customs contents)) before
      (earlier ++ handles) after.forest meanings starts
  | [], _, _, front, before, known, earlier, meanings, starts, bench, after, handles, raised, _,
      built => by
    cases built
    rw [List.append_nil, List.append_nil]
    exact ⟨meanings, starts, raised.grown⟩
  | child :: children, countable, inside, front, before, known, earlier, meanings, starts, bench,
      after, handles, raised, siblings, built => by
    obtain ⟨first, later⟩ := List.forall_mem_cons.mp countable
    have insideLater := fun shared => (List.forall_mem_cons.mp (inside shared)).2
    rw [List.append_cons front child children] at siblings ⊢
    rcases buildChildren_cons_eq_ok built with
      ⟨handle, others, shared, held, compiled, rfl⟩ | ⟨root, middle, others, rooted, compiled, rfl⟩
    · have telling : ∀ sibling ∈ front, sibling.text = child.text →
          sibling.meaning compiler.registry customs contents =
            child.meaning compiler.registry customs contents := by
        intro sibling member
        exact siblings shared sibling (by simp [member]) child (by simp)
      have again := raised.again telling held
      rw [List.append_cons earlier handle others]
      exact buildChildren_shares serves described children later insideLater again siblings
        compiled
    · have tree := build_shares serves described child first
        (fun shared => (List.forall_mem_cons.mp (inside shared)).1) rooted
      obtain ⟨_, _, fresh⟩ := raised.fresh tree
      rw [List.append_cons earlier root others]
      exact buildChildren_shares serves described children later insideLater fresh siblings
        compiled

end

/-- The children of a node grow trees that track their meanings. -/
theorem buildChildren_grown (serves : compiler.index.Serves interval contents)
    (described : compiler.registry.Described customs) {node : Node}
    (countable : node.Countable compiler.registry customs contents)
    (telling : compiler.shareNodes = true →
      node.Telling (Node.meaning compiler.registry customs contents))
    {bench middle : Workbench} {handles : List Handle}
    (compiled : compiler.buildChildren [] node.children bench = .ok handles middle) :
    ∃ meanings starts, Forest.GrownAll
      (Node.meanings compiler.registry customs contents node.children) bench.forest handles
      middle.forest meanings starts := by
  rw [Node.meanings_eq_map]
  exact buildChildren_shares serves described node.children countable.inside
    (fun shared => (telling shared).inside) (raised_nil bench.forest)
    (fun shared => (telling shared).siblings) compiled

/-- Compiling a node without sharing grows a tree that tracks its meaning. -/
theorem build_grown (serves : compiler.index.Serves interval contents)
    (described : compiler.registry.Described customs) (unshared : compiler.shareNodes = false)
    (node : Node) (countable : node.Countable compiler.registry customs contents)
    {bench after : Workbench} {handle : Handle}
    (built : compiler.build node bench = .ok handle after) :
    Forest.Grown (node.meaning compiler.registry customs contents) bench.forest handle
      after.forest := by
  apply build_shares serves described node countable _ built
  intro shared
  rw [unshared] at shared
  cases shared

/-- Compiling a tree takes the cursor of its text from the arena, or it builds the tree. -/
theorem compile_cases {node : Node} {arena kept : Arena} {bench after : Workbench}
    {handle : Handle} (compiled : compiler.compile node arena bench = .ok (handle, kept) after) :
    (compiler.shareNodes = true ∧ arena.get? node.text = some handle ∧ kept = arena ∧
        after = bench) ∨
      ((compiler.shareNodes = true → arena.get? node.text = none) ∧
        compiler.build node bench = .ok handle after ∧
        kept = if compiler.shareNodes then arena.insert node.text handle else arena) := by
  unfold compile at compiled
  cases shared : compiler.shareNodes with
  | false =>
      rw [shared] at compiled
      obtain ⟨root, _, built, same⟩ := Step.bind_eq_ok compiled
      cases same
      exact .inr ⟨fun impossible => (nomatch impossible), built, rfl⟩
  | true =>
      rw [shared] at compiled
      cases held : arena.get? node.text with
      | some known =>
          rw [held] at compiled
          cases compiled
          exact .inl ⟨rfl, rfl, rfl, rfl⟩
      | none =>
          rw [held] at compiled
          obtain ⟨root, _, built, same⟩ := Step.bind_eq_ok compiled
          cases same
          exact .inr ⟨fun _ => rfl, built, rfl⟩

/-- Compiling a tree is refused where building it is. -/
theorem compile_eq_error {node : Node} {arena : Arena} {bench after : Workbench} {cause : Error}
    (refused : compiler.compile node arena bench = .error cause after) :
    compiler.build node bench = .error cause after := by
  unfold compile at refused
  cases shared : compiler.shareNodes with
  | false =>
      rw [shared] at refused
      rcases Step.bind_eq_error refused with unbuilt | ⟨_, _, _, impossible⟩
      · exact unbuilt
      · cases impossible
  | true =>
      rw [shared] at refused
      cases held : arena.get? node.text with
      | some known =>
          rw [held] at refused
          cases refused
      | none =>
          rw [held] at refused
          rcases Step.bind_eq_error refused with unbuilt | ⟨_, _, _, impossible⟩
          · exact unbuilt
          · cases impossible

end Compiler

end Concordance
