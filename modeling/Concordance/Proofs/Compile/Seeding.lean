import Concordance.Proofs.Compile.Identities

/-!
# Bounds noted beforehand

A bound is noted once, for the cursor that was built for a node, and it is the one that the table
of counts gives for the node's first child.  Whatever is built later has identities of its own,
so it finds the bound and leaves it.
-/

namespace Concordance

/-! ## Noting a bound -/

section Lookup

variable {value : Bound} {entries : List (EstimatorId × Bound)}

theorem lookup_cons_eq (key other : EstimatorId) :
    ((key, value) :: entries).lookup other =
      if other = key then some value else entries.lookup other := by
  rw [List.lookup_cons]
  by_cases same : other = key
  · rw [if_pos same, beq_iff_eq.mpr same]
  · rw [if_neg same, beq_eq_false_iff_ne.mpr same]

theorem lookup_putBound (estimator other : EstimatorId) (bound : Bound) :
    (putBound estimator bound entries).lookup other =
      if other = estimator then some bound else entries.lookup other := by
  induction entries with
  | nil => exact lookup_cons_eq estimator other
  | cons entry entries induction =>
      obtain ⟨known, held⟩ := entry
      unfold putBound
      by_cases before : estimator.number < known.number
      · rw [if_pos before]
        exact lookup_cons_eq estimator other
      rw [if_neg before]
      by_cases here : estimator = known
      · rw [if_pos here, lookup_cons_eq, lookup_cons_eq, here]
        by_cases same : other = known
        · rw [if_pos same, if_pos same]
        · rw [if_neg same, if_neg same, if_neg same]
      · rw [if_neg here, lookup_cons_eq, lookup_cons_eq, induction]
        by_cases same : other = known
        · rw [if_pos same, if_pos same, if_neg (same ▸ Ne.symm here)]
        · rw [if_neg same, if_neg same]

end Lookup

namespace ScoringContext

variable {context : ScoringContext}

/-- Bounds are kept, and they are noted for identities that were given out. -/
structure Tidy (context : ScoringContext) : Prop where
  keeps : context.supportsBounds = true
  unused : ∀ id : EstimatorId, context.nextEstimator ≤ id.number → context.bound? id = none

theorem withBounds_tidy : withBounds.Tidy := ⟨rfl, fun _ _ => rfl⟩

theorem bound?_setBound (keeps : context.supportsBounds = true) (estimator other : EstimatorId)
    (bound : Bound) :
    (context.setBound estimator bound).bound? other =
      if other = estimator then some bound else context.bound? other := by
  obtain ⟨entries, held⟩ := Option.isSome_iff_exists.mp keeps
  simp only [bound?, setBound, held, Option.map_some, Option.bind_some]
  exact lookup_putBound estimator other bound

theorem supportsBounds_setBound (estimator : EstimatorId) (bound : Bound) :
    (context.setBound estimator bound).supportsBounds = context.supportsBounds := by
  simp [supportsBounds, setBound]

end ScoringContext

namespace Compiler

variable {compiler : Compiler}

theorem boundFor?_eq_some {table : CountTable} (counted : compiler.counts = some table)
    {children : List Node} {bound : Bound} :
    compiler.boundFor? children = some bound ↔
      ∃ child rest figures, children = child :: rest ∧
        CountTable.isWindowOperator child.operator = true ∧
        table.get? child.signature = some figures ∧
        bound = tableBound compiler.scorer figures := by
  constructor
  · intro seeds
    obtain ⟨_, held, seeds⟩ := Option.bind_eq_some_iff.mp seeds
    rw [counted] at held
    cases held
    cases children with
    | nil => cases seeds
    | cons child rest =>
        obtain ⟨_, first, seeds⟩ := Option.bind_eq_some_iff.mp seeds
        cases first
        split at seeds
        · obtain ⟨figures, found, rfl⟩ := Option.map_eq_some_iff.mp seeds
          exact ⟨child, rest, figures, rfl, ‹_›, found, rfl⟩
        · cases seeds
  · rintro ⟨child, rest, figures, rfl, window, found, rfl⟩
    change (compiler.counts.bind _) = _
    rw [counted, Option.bind_some]
    change (if _ then (table.get? child.signature).map _ else none) = _
    rw [if_pos window, found, Option.map_some]

/-! ## What is built -/

mutual

/-- The cursors that are built when a tree is compiled, each with its node, children first. -/
def builds (compiler : Compiler) : Node → Workbench → List (Node × Handle)
  | ⟨operator, parameters, children⟩, bench =>
    compiler.buildsAll [] children bench ++
      match compiler.build ⟨operator, parameters, children⟩ bench with
      | .ok handle _ => [(⟨operator, parameters, children⟩, handle)]
      | .error _ _ => []

/-- The cursors that are built for the children of one parent. -/
def buildsAll (compiler : Compiler) (built : List (String × Handle)) :
    List Node → Workbench → List (Node × Handle)
  | [], _ => []
  | child :: children, bench =>
    match if compiler.shareNodes then built.lookup child.text else none with
    | some _ => compiler.buildsAll built children bench
    | none =>
      compiler.builds child bench ++
        match compiler.build child bench with
        | .ok handle after => compiler.buildsAll ((child.text, handle) :: built) children after
        | .error _ _ => []

end

/-- Build the cursor of a node over those of its children. -/
def buildRoot (compiler : Compiler) (node : Node) (handles : List Handle) :
    Step Workbench Handle := do
  let estimator ← Workbench.allocate
  let handle ← Workbench.onForest
    (compiler.registry.build
      { node := node
        signature := node.signature
        children := handles
        index := compiler.index
        estimator := estimator
        scorer := compiler.scorer })
  compiler.seedBound node.children handle
  pure handle

theorem build_eq (node : Node) :
    compiler.build node =
      compiler.buildChildren [] node.children >>= compiler.buildRoot node := by
  cases node
  rw [build]
  rfl

theorem build_of_ok (node : Node) {bench middle : Workbench} {handles : List Handle}
    (built : compiler.buildChildren [] node.children bench = .ok handles middle) :
    compiler.build node bench = compiler.buildRoot node handles middle := by
  rw [build_eq, Step.bind_ok _ built]

theorem build_of_error (node : Node) {bench after : Workbench} {cause : Error}
    (refused : compiler.buildChildren [] node.children bench = .error cause after) :
    compiler.build node bench = .error cause after := by
  rw [build_eq, Step.bind_error _ refused]

end Compiler

/-! ## Accounts -/

/-- What compiling does to identities and bounds.  New identities are distinct, and each is that
of a cursor that was built for a node, with the bound that the node's children ask for.  Bounds of
identities that were given out before are left alone. -/
structure Accounted (bounds : List Node → Option Bound) (before : Workbench)
    (built : List (Node × Handle)) (after : Workbench) : Prop where
  size : before.forest.cursors.size ≤ after.forest.cursors.size
  next : before.context.nextEstimator ≤ after.context.nextEstimator
  known : ∀ handle : Handle, handle.index < before.forest.cursors.size →
    after.forest.identity? handle = before.forest.identity? handle
  kept : ∀ id : EstimatorId, id.number < before.context.nextEstimator →
    after.context.bound? id = before.context.bound? id
  tidy : after.context.Tidy
  inside : ∀ entry ∈ built, entry.2.index < after.forest.cursors.size
  given : ∀ (handle : Handle) (id : EstimatorId), before.forest.cursors.size ≤ handle.index →
    after.forest.identity? handle = some id →
    before.context.nextEstimator ≤ id.number ∧ id.number < after.context.nextEstimator ∧
      ∃ node, (node, handle) ∈ built
  distinct : ∀ (first second : Handle) (id : EstimatorId),
    before.forest.cursors.size ≤ first.index → before.forest.cursors.size ≤ second.index →
    after.forest.identity? first = some id → after.forest.identity? second = some id →
    first = second
  seeded : ∀ entry ∈ built, ∀ id, after.forest.identity? entry.2 = some id →
    before.forest.cursors.size ≤ entry.2.index ∧
      after.context.bound? id = bounds entry.1.children

namespace Accounted

variable {bounds : List Node → Option Bound} {before middle after : Workbench}
  {built later : List (Node × Handle)}

/-- Nothing is built, and nothing is noted. -/
theorem of_namesakes (tidy : before.context.Tidy)
    (forest : Forest.Namesakes before.forest after.forest)
    (next : before.context.nextEstimator ≤ after.context.nextEstimator)
    (same : after.context.bounds = before.context.bounds) :
    Accounted bounds before [] after := by
  have bound (id : EstimatorId) : after.context.bound? id = before.context.bound? id := by
    rw [ScoringContext.bound?, same]
    rfl
  have keeps : after.context.supportsBounds = true := by
    rw [ScoringContext.supportsBounds, same]
    exact tidy.keeps
  have nobody (handle : Handle) (id : EstimatorId)
      (behind : before.forest.cursors.size ≤ handle.index) :
      after.forest.identity? handle ≠ some id := by
    rw [forest.same, Forest.identity?_of_size_le behind]
    exact nofun
  exact ⟨forest.size, next, fun handle _ => forest.same handle, fun id _ => bound id,
    ⟨keeps, fun id unused => (bound id).trans (tidy.unused id (next.trans unused))⟩,
    fun _ impossible => (nomatch impossible),
    fun handle id behind known => absurd known (nobody handle id behind),
    fun first _ id behind _ known _ => absurd known (nobody first id behind),
    fun _ impossible => (nomatch impossible)⟩

theorem refl (tidy : before.context.Tidy) : Accounted bounds before [] before :=
  of_namesakes tidy (.refl _) (Nat.le_refl _) rfl

theorem trans (here : Accounted bounds before built middle)
    (next : Accounted bounds middle later after) :
    Accounted bounds before (built ++ later) after where
  size := here.size.trans next.size
  next := here.next.trans next.next
  known handle inside :=
    (next.known handle (Nat.lt_of_lt_of_le inside here.size)).trans (here.known handle inside)
  kept id given :=
    (next.kept id (Nat.lt_of_lt_of_le given here.next)).trans (here.kept id given)
  tidy := next.tidy
  inside := by
    intro entry member
    rcases List.mem_append.mp member with first | second
    · exact Nat.lt_of_lt_of_le (here.inside entry first) next.size
    · exact next.inside entry second
  given := by
    intro handle id behind known
    by_cases early : handle.index < middle.forest.cursors.size
    · rw [next.known handle early] at known
      obtain ⟨least, most, node, member⟩ := here.given handle id behind known
      exact ⟨least, Nat.lt_of_lt_of_le most next.next, node, List.mem_append_left _ member⟩
    · obtain ⟨least, most, node, member⟩ := next.given handle id (Nat.not_lt.mp early) known
      exact ⟨here.next.trans least, most, node, List.mem_append_right _ member⟩
  distinct := by
    intro first second id isFirst isSecond knownFirst knownSecond
    -- An identity from the first part is below all those from the second.
    have apart : ∀ one other : Handle, before.forest.cursors.size ≤ one.index →
        one.index < middle.forest.cursors.size → ¬other.index < middle.forest.cursors.size →
        after.forest.identity? one = some id → after.forest.identity? other ≠ some id := by
      intro one other behind early late known same
      rw [next.known one early] at known
      obtain ⟨_, most, _⟩ := here.given one id behind known
      obtain ⟨least, _, _⟩ := next.given other id (Nat.not_lt.mp late) same
      omega
    by_cases early : first.index < middle.forest.cursors.size <;>
      by_cases soon : second.index < middle.forest.cursors.size
    · rw [next.known first early] at knownFirst
      rw [next.known second soon] at knownSecond
      exact here.distinct first second id isFirst isSecond knownFirst knownSecond
    · exact absurd knownSecond (apart first second isFirst early soon knownFirst)
    · exact absurd knownFirst (apart second first isSecond soon early knownSecond)
    · exact next.distinct first second id (Nat.not_lt.mp early) (Nat.not_lt.mp soon) knownFirst
        knownSecond
  seeded := by
    intro entry member id known
    rcases List.mem_append.mp member with first | second
    · rw [next.known _ (here.inside entry first)] at known
      obtain ⟨behind, noted⟩ := here.seeded entry first id known
      obtain ⟨_, most, _⟩ := here.given entry.2 id behind known
      exact ⟨behind, (next.kept id most).trans noted⟩
    · obtain ⟨behind, noted⟩ := next.seeded entry second id known
      exact ⟨here.size.trans behind, noted⟩

/-- A cursor without an identity was built. -/
theorem bare (accounted : Accounted bounds before built after) {node : Node} {handle : Handle}
    (inside : handle.index < after.forest.cursors.size)
    (bare : after.forest.identity? handle = none) :
    Accounted bounds before (built ++ [(node, handle)]) after where
  __ := accounted
  inside := List.forall_mem_append.mpr ⟨accounted.inside, List.forall_mem_singleton.mpr inside⟩
  given handle id behind known := by
    obtain ⟨least, most, node, member⟩ := accounted.given handle id behind known
    exact ⟨least, most, node, List.mem_append_left _ member⟩
  seeded := by
    refine List.forall_mem_append.mpr ⟨accounted.seeded, List.forall_mem_singleton.mpr ?_⟩
    intro id known
    rw [bare] at known
    cases known

/-- A cursor with the next identity was built, and the bound of its node was noted. -/
theorem bearing (tidy : before.context.Tidy) {node : Node} {handle : Handle}
    (size : before.forest.cursors.size ≤ after.forest.cursors.size)
    (behind : before.forest.cursors.size ≤ handle.index)
    (bears : after.forest.identity? handle = some ⟨before.context.nextEstimator⟩)
    (others : ∀ other, other ≠ handle →
      after.forest.identity? other = before.forest.identity? other)
    (next : after.context.nextEstimator = before.context.nextEstimator + 1)
    (keeps : after.context.supportsBounds = true)
    (noted : ∀ id, after.context.bound? id =
      if id = ⟨before.context.nextEstimator⟩ then bounds node.children
      else before.context.bound? id) :
    Accounted bounds before [(node, handle)] after := by
  have only (other : Handle) (id : EstimatorId)
      (late : before.forest.cursors.size ≤ other.index)
      (known : after.forest.identity? other = some id) :
      other = handle ∧ id = ⟨before.context.nextEstimator⟩ := by
    by_cases same : other = handle
    · rw [same, bears] at known
      cases known
      exact ⟨same, rfl⟩
    · rw [others other same, Forest.identity?_of_size_le late] at known
      cases known
  have unchanged (id : EstimatorId) (different : id.number ≠ before.context.nextEstimator) :
      after.context.bound? id = before.context.bound? id := by
    rw [noted, if_neg fun same => different (congrArg EstimatorId.number same)]
  refine ⟨size, by omega, ?_, ?_, ⟨keeps, ?_⟩, ?_, ?_, ?_, ?_⟩
  · intro other inside
    apply others
    rintro rfl
    omega
  · intro id given
    exact unchanged id (Nat.ne_of_lt given)
  · intro id unused
    rw [unchanged id (by omega)]
    exact tidy.unused id (by omega)
  · exact List.forall_mem_singleton.mpr (Forest.inside_of_identity? bears)
  · intro other id late known
    obtain ⟨rfl, rfl⟩ := only other id late known
    exact ⟨Nat.le_refl _, next ▸ Nat.lt_succ_self _, node, List.mem_singleton.mpr rfl⟩
  · intro first second id isFirst isSecond knownFirst knownSecond
    rw [(only first id isFirst knownFirst).1, (only second id isSecond knownSecond).1]
  · refine List.forall_mem_singleton.mpr fun id known => ⟨behind, ?_⟩
    rw [bears] at known
    cases known
    rw [noted, if_pos rfl]

end Accounted

/-! ## Compiling -/

namespace Compiler

variable {compiler : Compiler}

theorem seedBound_bare {children : List Node} {handle : Handle} {bench : Workbench}
    (bare : bench.forest.identity? handle = none) :
    compiler.seedBound children handle bench = .ok () bench := by
  unfold Forest.identity? at bare
  simp only [seedBound, Step.modify_run, bare]

/-- An estimating cursor has the bound that its children ask for, if they do, and that bound
alone is noted. -/
theorem seedBound_bearing {children : List Node} {handle : Handle} {bench : Workbench}
    {estimator : EstimatorId} (bears : bench.forest.identity? handle = some estimator)
    (keeps : bench.context.supportsBounds = true) :
    ∃ context, compiler.seedBound children handle bench =
        .ok () { bench with context := context } ∧
      context.nextEstimator = bench.context.nextEstimator ∧ context.supportsBounds = true ∧
      ∀ id, context.bound? id =
        if id = estimator then (compiler.boundFor? children).or (bench.context.bound? id)
        else bench.context.bound? id := by
  unfold Forest.identity? at bears
  simp only [seedBound, Step.modify_run, bears]
  cases compiler.boundFor? children with
  | none => exact ⟨bench.context, rfl, rfl, keeps, fun id => (ite_self _).symm⟩
  | some bound =>
      refine ⟨bench.context.setBound estimator bound, rfl, rfl, ?_, fun id => ?_⟩
      · rw [ScoringContext.supportsBounds_setBound, keeps]
      · exact ScoringContext.bound?_setBound keeps estimator id bound

/-- One node is given the next identity, whatever comes of it. -/
theorem buildRoot_accounted (issuing : compiler.registry.Issuing) (node : Node)
    (handles : List Handle) {bench : Workbench} (tidy : bench.context.Tidy) :
    match compiler.buildRoot node handles bench with
    | .ok handle after => Accounted compiler.boundFor? bench [(node, handle)] after
    | .error _ after => Accounted compiler.boundFor? bench [] after := by
  let request : BuildRequest :=
    ⟨node, node.signature, handles, compiler.index, bench.context.allocate.1, compiler.scorer⟩
  have issues : Forest.Issues request.estimator (compiler.registry.build request) bench.forest :=
    Forest.registry_issues issuing
  unfold buildRoot
  rw [Step.bind_ok _ (allocate_run bench)]
  cases run : compiler.registry.build request bench.forest with
  | error cause forest =>
      have refused : Workbench.onForest (compiler.registry.build request)
          { bench with context := bench.context.allocate.2 } =
            .error cause ⟨forest, bench.context.allocate.2⟩ := Step.onPart_error run
      rw [Step.bind_error _ refused]
      exact .of_namesakes tidy (issues.refused cause forest run) (Nat.le_succ _) rfl
  | ok handle forest =>
      let grown : Workbench := ⟨forest, bench.context.allocate.2⟩
      have added : Workbench.onForest (compiler.registry.build request)
          { bench with context := bench.context.allocate.2 } = .ok handle grown :=
        Step.onPart_ok run
      rw [Step.bind_ok _ added]
      cases issues.built handle forest run with
      | plain kept inside bare =>
          have nothing : Accounted compiler.boundFor? bench [] grown :=
            .of_namesakes tidy kept (Nat.le_succ _) rfl
          rw [Step.bind_ok _ (@seedBound_bare _ node.children handle grown bare)]
          exact nothing.bare inside bare
      | bearing size behind bears others =>
          obtain ⟨context, seeded, next, keeps, noted⟩ := @seedBound_bearing compiler node.children
            handle grown ⟨bench.context.nextEstimator⟩ bears tidy.keeps
          rw [Step.bind_ok _ seeded]
          refine .bearing tidy size behind bears others next keeps fun id => (noted id).trans ?_
          by_cases same : id = ⟨bench.context.nextEstimator⟩
          · have unnoted : grown.context.bound? id = none := tidy.unused id (same ▸ Nat.le_refl _)
            rw [if_pos same, if_pos same, unnoted, Option.or_none]
          · rw [if_neg same, if_neg same]
            rfl

mutual

/-- Compiling accounts for the identities that it gives out, also if it fails. -/
theorem build_accounted (issuing : compiler.registry.Issuing) :
    (node : Node) → (bench : Workbench) → bench.context.Tidy →
    Accounted compiler.boundFor? bench (compiler.builds node bench)
      ((compiler.build node).endState bench)
  | ⟨operator, parameters, children⟩, bench, tidy => by
    have below := buildChildren_accounted issuing children [] bench tidy
    rw [builds]
    cases built : compiler.buildChildren [] children bench with
    | error cause middle =>
        have run := build_of_error ⟨operator, parameters, children⟩ built
        rw [run, List.append_nil, Step.endState_error run]
        exact Step.endState_error built ▸ below
    | ok handles middle =>
        rw [Step.endState_ok built] at below
        have root := buildRoot_accounted issuing ⟨operator, parameters, children⟩ handles below.tidy
        have run := build_of_ok ⟨operator, parameters, children⟩ built
        rw [Step.endState, run]
        cases rooted : compiler.buildRoot ⟨operator, parameters, children⟩ handles middle with
        | error cause after =>
            rw [rooted] at root
            exact below.trans root
        | ok handle after =>
            rw [rooted] at root
            exact below.trans root

theorem buildChildren_accounted (issuing : compiler.registry.Issuing) :
    (children : List Node) → (known : List (String × Handle)) → (bench : Workbench) →
    bench.context.Tidy →
    Accounted compiler.boundFor? bench (compiler.buildsAll known children bench)
      ((compiler.buildChildren known children).endState bench)
  | [], known, bench, tidy => .refl tidy
  | child :: children, known, bench, tidy => by
    rw [buildsAll, buildChildren]
    cases held : if compiler.shareNodes then known.lookup child.text else none with
    | some handle =>
        dsimp only
        rw [Step.endState_bind_pure]
        exact buildChildren_accounted issuing children known bench tidy
    | none =>
        have first := build_accounted issuing child bench tidy
        dsimp only
        cases built : compiler.build child bench with
        | error cause middle =>
            rw [Step.endState_error built] at first
            rw [List.append_nil, Step.endState_error (Step.bind_error _ built)]
            exact first
        | ok handle middle =>
            rw [Step.endState_ok built] at first
            rw [Step.endState_bind built, Step.endState_bind_pure]
            exact first.trans
              (buildChildren_accounted issuing children _ middle first.tidy)

end

end Compiler

end Concordance
