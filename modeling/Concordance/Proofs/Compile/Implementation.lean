import Concordance.Proofs.Compile.Growth

/-!
# What implementations build

The implementation of an operator asks something of the node and of what its children offer.
If it gets that, it adds a tree of cursors that tracks the meaning of the node.  Otherwise it
refuses and leaves the forest as it was.
-/

namespace Concordance

/-! ## Constructors from outside -/

theorem TextMap.get?_foldl_insert {α : Type} {key : String} {value : α}
    {entries : List (String × α)} {map : TextMap α}
    (held : (entries.foldl (fun map entry => map.insert entry.1 entry.2) map).get? key =
      some value) : (key, value) ∈ entries ∨ map.get? key = some value := by
  induction entries generalizing map with
  | nil => exact .inr held
  | cons entry entries induction =>
      rcases induction held with later | before
      · exact .inl (List.mem_cons_of_mem _ later)
      · rw [TextMap.get?_insert] at before
        by_cases same : key = entry.1
        · rw [if_pos same] at before
          cases before
          subst same
          exact .inl List.mem_cons_self
        · rw [if_neg same] at before
          exact .inr before

theorem TextMap.mem_of_get?_ofList {α : Type} {key : String} {value : α}
    {entries : List (String × α)} (held : (TextMap.ofList entries).get? key = some value) :
    (key, value) ∈ entries := by
  rcases TextMap.get?_foldl_insert held with member | empty
  · exact member
  · cases empty

/-- A constructor from outside builds a tree of its own, behind the trees of the children
and over some of them at most, that tracks what the constructor means. -/
def Customs.Describes (customs : Customs) (build : BuildRequest → Step Forest Handle) : Prop :=
  ∀ {interval : Nat} {contents : Contents} {request : BuildRequest} {children : List Meaning}
    {before middle after : Forest} {handle : Handle} {meanings : Handle → Meaning}
    {starts : Handle → Nat},
    request.index.Serves interval contents →
    Forest.GrownAll children before request.children middle meanings starts →
    (customs build contents request.node children).Countable →
    build request middle = .ok handle after →
    Forest.Grown (customs build contents request.node children) before handle after

/-- All constructors from outside that operators stand for mean what is said of them. -/
def Registry.Described (registry : Registry) (customs : Customs) : Prop :=
  ∀ operator build, registry.resolve? operator = some (.custom build) → customs.Describes build

/-- Operators only stand for implementations that the library knows. -/
def Registry.BuiltIn (registry : Registry) : Prop :=
  ∀ operator implementation, registry.resolve? operator = some implementation →
    ∀ build, implementation ≠ .custom build

/-- Whatever a session overrides, it stays with the built-in implementations. -/
theorem Registry.withOverrides_builtIn (overrides : TextMap String) :
    (withOverrides overrides).BuiltIn := by
  intro operator implementation resolved build custom
  obtain ⟨id, _, held⟩ := Option.bind_eq_some_iff.mp resolved
  have known := TextMap.mem_of_get?_ofList held
  rw [custom] at known
  simp [defaultImplementations] at known

theorem Registry.BuiltIn.described {registry : Registry} (builtIn : registry.BuiltIn)
    (customs : Customs) : registry.Described customs :=
  fun operator build resolved => absurd rfl (builtIn operator _ resolved build)

/-! ## What implementations ask for -/

/-- Whether a leaf names a key. -/
def Node.NamesKey (node : Node) : Prop :=
  ((node.getString? defaultName).or (node.getString? "term")).isSome = true

/-- Whether the width that a window asks for, if any, has 32 bits. -/
def Node.AsksWidth (node : Node) : Prop :=
  ∀ width, node.getLong? defaultName = some width → 0 ≤ width ∧ width ≤ BuildRequest.maxWidth

/-- What an implementation asks of a node and of the meanings of its children. -/
def Implementation.Admits (implementation : Implementation) (node : Node)
    (children : List Meaning) : Prop :=
  match implementation with
  | .source _ => node.NamesKey
  | .window order =>
    node.AsksWidth ∧ (Combination.window order (node.windowWidth order)).Admits children
  | .synonym => Combination.synonym.Admits children
  | .conjunction => Combination.conjunction.Admits children
  | .union => Combination.union.Admits children
  | .combine => Combination.combine.Admits children
  | .feature => Feature.Admits children
  | .null | .custom _ => True

namespace BuildRequest

variable {request : BuildRequest}

theorem leafKey_cases (request : BuildRequest) :
    (request.node.NamesKey ∧ request.leafKey = .ok request.node.leafKey) ∨
      ¬request.node.NamesKey ∧
        ∃ cause, request.leafKey = .error cause ∧ cause.kind = .unsupportedNode := by
  unfold leafKey Node.NamesKey Node.leafKey
  cases request.node.getString? Node.defaultName with
  | some text => exact .inl ⟨rfl, rfl⟩
  | none =>
      cases request.node.getString? "term" with
      | some text => exact .inl ⟨rfl, rfl⟩
      | none => exact .inr ⟨Bool.false_ne_true, _, rfl, rfl⟩

theorem leafKey_eq {key : String}
    (named : request.leafKey = .ok key) : key = request.node.leafKey := by
  rcases request.leafKey_cases with ⟨_, known⟩ | ⟨_, cause, refused, _⟩
  · rw [known] at named
    cases named
    rfl
  · rw [refused] at named
    cases named

theorem leafKey_settles (request : BuildRequest) (forest : Forest) :
    (Step.ofExcept request.leafKey).Settles forest request.node.NamesKey
      (fun key after => key = request.node.leafKey ∧ after = forest)
      (fun after => after = forest) := by
  rcases request.leafKey_cases with ⟨names, known⟩ | ⟨nameless, cause, refused, _⟩
  · exact Step.settles_done (Step.ofExcept_run known forest) names ⟨rfl, rfl⟩
  · exact Step.settles_failed (Step.ofExcept_error refused forest) nameless rfl

theorem windowWidth_cases (order : Window.Order)
    (length : request.children.length = request.node.children.length) :
    (request.node.AsksWidth ∧ request.windowWidth (request.defaultWidth order) =
        .ok (request.node.windowWidth order)) ∨
      ¬request.node.AsksWidth ∧ ∃ cause, request.windowWidth (request.defaultWidth order) =
        .error cause ∧ cause.kind = .invalidArgument := by
  unfold Node.AsksWidth windowWidth Node.windowWidth
  cases asked : request.node.getLong? Node.defaultName with
  | none =>
      refine .inl ⟨fun _ impossible => (nomatch impossible), ?_⟩
      cases order with
      | ordered => rfl
      | unordered =>
          dsimp only
          rw [defaultWidth, length]
  | some wanted =>
      by_cases inRange : 0 ≤ wanted ∧ wanted ≤ maxWidth
      · refine .inl ⟨?_, if_pos inRange⟩
        rintro width ⟨⟩
        exact inRange
      · exact .inr ⟨fun all => inRange (all wanted rfl), _, if_neg inRange, rfl⟩

theorem windowWidth_settles {order : Window.Order}
    (length : request.children.length = request.node.children.length) (forest : Forest) :
    (Step.ofExcept (request.windowWidth (request.defaultWidth order))).Settles forest
      request.node.AsksWidth
      (fun width after => width = request.node.windowWidth order ∧ after = forest)
      (fun after => after = forest) := by
  rcases windowWidth_cases order length with ⟨asks, known⟩ | ⟨wrong, cause, refused, _⟩
  · exact Step.settles_done (Step.ofExcept_run known forest) asks ⟨rfl, rfl⟩
  · exact Step.settles_failed (Step.ofExcept_error refused forest) wrong rfl

end BuildRequest

namespace Forest

variable {before middle after : Forest} {children : List Meaning} {handle : Handle}

theorem Grown.of_kept {meaning : Meaning} (kept : Kept before middle)
    (grown : Grown meaning middle handle after) : Grown meaning before handle after :=
  ⟨grown.tracks.widen kept.size, kept.trans grown.kept⟩

/-- An implementation of the library builds a tree that tracks its meaning if it is given what
it asks for, and otherwise it leaves the forest as it was. -/
theorem build_settles {implementation : Implementation} {request : BuildRequest} {interval : Nat}
    {customs : Customs} {contents : Contents} {meanings : Handle → Meaning} {starts : Handle → Nat}
    (serves : request.index.Serves interval contents)
    (library : ∀ build, implementation ≠ .custom build)
    (grown : GrownAll children before request.children middle meanings starts)
    (length : request.children.length = request.node.children.length)
    (countable : (implementation.meaning customs contents request.node children).Countable) :
    (implementation.build request).Settles middle (implementation.Admits request.node children)
      (Grown (implementation.meaning customs contents request.node children) before)
      (fun after => after = middle) := by
  cases implementation with
  | source withExtents =>
      rw [Implementation.Admits, ← and_true request.node.NamesKey]
      apply (request.leafKey_settles middle).bind
      rintro _ middle _ ⟨rfl, rfl⟩
      have sourced := addSource?_grown serves (Key.ofText request.node.leafKey) withExtents middle
      unfold Implementation.meaning
      cases held : contents (Key.ofText request.node.leafKey) with
      | some postings =>
          rw [held] at sourced
          obtain ⟨last, run, tree⟩ := sourced
          refine Step.settles_done ?_ trivial (Grown.of_kept grown.kept tree)
          rw [Step.bind_ok _ run]
          rfl
      | none =>
          rw [held] at sourced
          refine Step.settles_done ?_ trivial
            (Grown.of_kept grown.kept (grown_null middle request.node.leafKey))
          rw [Step.bind_ok _ sourced]
          exact add_run _ _
  | window order =>
      apply (BuildRequest.windowWidth_settles length middle).bind
      rintro _ middle _ ⟨rfl, rfl⟩
      exact addComposite_settles grown countable
  | synonym => exact addComposite_settles grown countable
  | conjunction => exact addComposite_settles grown countable
  | union => exact addComposite_settles grown countable
  | combine => exact addComposite_settles grown countable
  | feature => exact addFeature_settles grown
  | null => exact Step.settles_done rfl trivial (Grown.of_kept grown.kept (grown_null middle _))
  | custom build => exact absurd rfl (library build)

/-- An implementation builds a tree that tracks its meaning. -/
theorem build_grown {implementation : Implementation} {request : BuildRequest} {interval : Nat}
    {customs : Customs} {contents : Contents} {meanings : Handle → Meaning} {starts : Handle → Nat}
    (serves : request.index.Serves interval contents)
    (described : ∀ build, implementation = .custom build → customs.Describes build)
    (grown : GrownAll children before request.children middle meanings starts)
    (length : request.children.length = request.node.children.length)
    (countable : (implementation.meaning customs contents request.node children).Countable)
    (built : implementation.build request middle = .ok handle after) :
    Grown (implementation.meaning customs contents request.node children) before handle after := by
  by_cases custom : ∃ build, implementation = .custom build
  · obtain ⟨build, rfl⟩ := custom
    exact described build rfl serves grown countable built
  · have library := not_exists.mp custom
    exact ((build_settles serves library grown length countable).of_ok built).2

end Forest

namespace Registry

variable {registry : Registry} {request : BuildRequest} {interval : Nat} {customs : Customs}
  {contents : Contents} {before middle after : Forest} {handle : Handle}
  {meanings : Handle → Meaning} {starts : Handle → Nat}

theorem build_resolved {implementation : Implementation}
    (resolved : registry.resolve? request.node.operator = some implementation) :
    registry.build request = implementation.build request := by
  obtain ⟨id, named, held⟩ := Option.bind_eq_some_iff.mp resolved
  funext forest
  simp only [Registry.build, named, held]

theorem build_unresolved (unknown : registry.resolve? request.node.operator = none)
    (forest : Forest) : ∃ cause, registry.build request forest = .error cause forest ∧
      cause.kind = .unsupportedNode := by
  unfold Registry.build
  unfold resolve? at unknown
  cases named : registry.implementationId? request.node.operator with
  | none => exact ⟨_, rfl, rfl⟩
  | some id =>
      rw [named] at unknown
      dsimp only
      rw [show registry.implementations.get? id = none from unknown]
      exact ⟨_, rfl, rfl⟩

theorem build_eq_ok (built : registry.build request middle = .ok handle after) :
    ∃ implementation, registry.resolve? request.node.operator = some implementation ∧
      implementation.build request middle = .ok handle after := by
  cases resolved : registry.resolve? request.node.operator with
  | none =>
      obtain ⟨cause, refused, _⟩ := build_unresolved resolved middle
      rw [refused] at built
      cases built
  | some implementation =>
      rw [build_resolved resolved] at built
      exact ⟨implementation, rfl, built⟩

variable (serves : request.index.Serves interval contents)
  (countable : (request.node.meaning registry customs contents).Countable)
  (grown : Forest.GrownAll (Node.meanings registry customs contents request.node.children) before
    request.children middle meanings starts)

include serves countable grown

/-- A request over compiled children grows a tree that tracks the meaning of its node. -/
theorem build_grown (described : registry.Described customs)
    (built : registry.build request middle = .ok handle after) :
    Forest.Grown (request.node.meaning registry customs contents) before handle after := by
  obtain ⟨implementation, resolved, made⟩ := Registry.build_eq_ok built
  have same := Node.meaning_eq customs contents resolved
  have length := grown.length_eq
  rw [Node.meanings_eq_map, List.length_map] at length
  rw [same] at countable ⊢
  refine Forest.build_grown serves ?_ grown length countable made
  rintro build rfl
  exact described _ build resolved

/-- A request to a registry of built-in implementations succeeds if the one that the operator
stands for is given what it asks for.  A request that is refused changes nothing. -/
theorem build_settles (builtIn : registry.BuiltIn) :
    (registry.build request).Settles middle
      (∃ implementation, registry.resolve? request.node.operator = some implementation ∧
        implementation.Admits request.node
          (Node.meanings registry customs contents request.node.children))
      (Forest.Grown (request.node.meaning registry customs contents) before)
      (fun after => after = middle) := by
  cases resolved : registry.resolve? request.node.operator with
  | none =>
      obtain ⟨cause, refused, _⟩ := build_unresolved resolved middle
      exact Step.settles_failed refused (by simp) rfl
  | some implementation =>
      have length := grown.length_eq
      rw [Node.meanings_eq_map, List.length_map] at length
      have same := Node.meaning_eq customs contents resolved
      rw [same] at countable ⊢
      rw [build_resolved resolved]
      simp only [Option.some.injEq, exists_eq_left']
      exact Forest.build_settles serves (builtIn _ _ resolved) grown length countable

end Registry

end Concordance
