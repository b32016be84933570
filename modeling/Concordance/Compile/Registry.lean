import Concordance.Cursor.Build
import Concordance.Query.Node

/-!
# Operators

The operator of a node is resolved to an implementation in three stages: an
override of the session, the built-in table, and last an implementation that
has the operator's own name.  An implementation builds the cursor of a node
over the cursors of its children.
-/

namespace Concordance

/-- What an implementation has to build a cursor from. -/
structure BuildRequest where
  node : Node
  signature : String
  children : List Handle
  index : Index
  estimator : EstimatorId
  scorer : String

/-- The ways to build a cursor. -/
inductive Implementation where
  /-- A key of the index, its extents on request. -/
  | source (withExtents : Bool)
  | window (order : Window.Order)
  | synonym
  | conjunction
  | union
  | feature
  | combine
  | null
  /-- A way that the library does not know. -/
  | custom (build : BuildRequest → Step Forest Handle)

namespace BuildRequest

/-- The index key that a leaf names. -/
def leafKey (request : BuildRequest) : Except Error String :=
  match request.node.getString? Node.defaultName with
  | some key => .ok key
  | none =>
    match request.node.getString? "term" with
    | some key => .ok key
    | none => .error (.noKey request.node.text)

/-- Window widths are 32-bit numbers. -/
def maxWidth : Nat := 4294967295

/-- The width that a window asks for. -/
def windowWidth (request : BuildRequest) (fallback : Nat) : Except Error Nat :=
  match request.node.getLong? Node.defaultName with
  | none => .ok fallback
  | some width =>
    if 0 ≤ width ∧ width ≤ maxWidth then .ok width.toNat
    else .error (.widthOutOfRange width request.node.text)

/-- The width of a window that asks for none: consecutive extents for an
ordered window, two positions for each child of an unordered one. -/
def defaultWidth (request : BuildRequest) : Window.Order → Nat
  | .ordered => 1
  | .unordered => min (request.children.length * 2) maxWidth

end BuildRequest

namespace Implementation

/-- Build the cursor of a node. -/
def build (implementation : Implementation) (request : BuildRequest) :
    Step Forest Handle := do
  let composite := fun combination =>
    Forest.addComposite request.signature combination request.children
  match implementation with
  | source withExtents =>
    let key ← Step.ofExcept request.leafKey
    match ← Forest.addSource? request.index (Key.ofText key) withExtents with
    | some handle => pure handle
    | none => Forest.add (.null key)
  | window order =>
    let width ← Step.ofExcept (request.windowWidth (request.defaultWidth order))
    composite (.window order width)
  | synonym => composite .synonym
  | conjunction => composite .conjunction
  | union => composite .union
  | combine => composite .combine
  | feature =>
    Forest.addFeature request.signature request.children request.estimator request.scorer
  | null => Forest.add (.null request.signature)
  | custom build => build request

end Implementation

/-- Operators and the implementations they stand for. -/
structure Registry where
  /-- Implementation ids that a session puts in place of the built-in ones. -/
  overrides : TextMap String
  implementations : TextMap Implementation

namespace Registry

/-- The built-in table of operators with the ids of their implementations. -/
def defaultOperators : List (String × String) :=
  [("extents", "extents"), ("counts", "counts"), ("od", "ordered-window"),
    ("ordered", "ordered-window"), ("uw", "unordered-window"),
    ("unordered", "unordered-window"), ("syn", "synonym"), ("synonym", "synonym"),
    ("band", "conjunction"), ("bor", "disjunction"), ("feature", "feature"),
    ("combine", "combine"), ("null", "null")]

/-- The built-in implementations with their ids. -/
def defaultImplementations : List (String × Implementation) :=
  [("extents", .source true), ("counts", .source false),
    ("ordered-window", .window .ordered), ("unordered-window", .window .unordered),
    ("synonym", .synonym), ("conjunction", .conjunction), ("disjunction", .union),
    ("feature", .feature), ("combine", .combine), ("null", .null)]

/-- A registry with the built-in implementations and some overrides. -/
def withOverrides (overrides : TextMap String) : Registry :=
  ⟨overrides, TextMap.ofList defaultImplementations⟩

/-- Put an implementation under an id. -/
def register (registry : Registry) (id : String) (implementation : Implementation) :
    Registry :=
  { registry with implementations := registry.implementations.insert id implementation }

/-- Let an operator stand for the implementation with an id. -/
def override (registry : Registry) (operator id : String) : Registry :=
  { registry with overrides := registry.overrides.insert operator id }

/-- The id of the implementation that an operator stands for. -/
def implementationId? (registry : Registry) (operator : String) : Option String :=
  match registry.overrides.get? operator with
  | some id => some id
  | none =>
    match defaultOperators.lookup operator with
    | some id => some id
    | none => (registry.implementations.get? operator).map fun _ => operator

/-- Build the cursor of a node with the implementation of its operator. -/
def build (registry : Registry) (request : BuildRequest) : Step Forest Handle := do
  match registry.implementationId? request.node.operator with
  | none => throw (.unknownOperator request.node.operator)
  | some id =>
    match registry.implementations.get? id with
    | none => throw (.noConstructor request.node.operator id)
    | some implementation => implementation.build request

end Registry

end Concordance
