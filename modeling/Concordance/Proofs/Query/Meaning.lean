import Mathlib
import Concordance.Compile.Registry
import Concordance.Proofs.Extent
import Concordance.Proofs.Repetition
import Concordance.Proofs.Window

/-!
# The meaning of a query

A query means the documents that it matches, each with the count and the
extents that it has there.  The meaning of a node is put together from those of
its children and from the postings written under each key; no cursor has a
part in it.
-/

namespace Concordance

/-- What a query finds in a document, and what it offers of that. -/
structure Meaning where
  capabilities : Capabilities
  found : DocId → Option Match

/-- The postings written under each key that was written at all. -/
abbrev Contents := Key → Option (List Posting)

namespace Meaning

/-- A query that matches nothing. -/
def absent : Meaning := ⟨Capabilities.allButEstimator, fun _ => none⟩

/-- A key, with its extents on request. -/
def source (postings : List Posting) (withExtents : Bool) : Meaning :=
  { capabilities :=
      if withExtents then Capabilities.allButEstimator else Capabilities.countAndAggregate
    found := fun doc =>
      (postings.find? fun posting => posting.doc == doc).map fun posting =>
        ⟨posting.doc, posting.count, if withExtents then posting.extents else []⟩ }

/-- A feature shows its child's documents to a scorer. -/
def feature (child : Meaning) : Meaning := { child with capabilities := Capabilities.onlyEstimator }

end Meaning

namespace Combination

/-- The matches that some queries have in a document. -/
def present (children : List Meaning) (doc : DocId) : List Match :=
  children.filterMap fun child => child.found doc

/-- Whether every one of some queries matches a document. -/
def allPresent (children : List Meaning) (doc : DocId) : Bool :=
  children.all fun child => (child.found doc).isSome

/-- What a combination finds in a document. -/
def found (combination : Combination) (children : List Meaning) (doc : DocId) : Option Match :=
  match combination with
  | .conjunction => if allPresent children doc then some ⟨doc, 1, []⟩ else none
  | .union =>
    if (present children doc).isEmpty then none
    else some ⟨doc, min Forest.maxCount ((present children doc).map Match.count).sum, []⟩
  | .combine => if (present children doc).isEmpty then none else some ⟨doc, 0, []⟩
  | .synonym =>
    let extents := (Extent.sort ((present children doc).flatMap Match.extents)).eraseReps
    if (present children doc).isEmpty then none else some ⟨doc, extents.length, extents⟩
  | .window order width =>
    let lists := (present children doc).map Match.extents
    let windows := (Window.find order width lists).toOption.getD []
    if allPresent children doc && !windows.isEmpty then some ⟨doc, windows.length, windows⟩
    else none

def meaning (combination : Combination) (children : List Meaning) : Meaning :=
  ⟨combination.capabilities, combination.found children⟩

end Combination

/-! ## Nodes -/

/-- The implementation that an operator stands for. -/
def Registry.resolve? (registry : Registry) (operator : String) : Option Implementation :=
  (registry.implementationId? operator).bind registry.implementations.get?

namespace Node

/-- The key that a leaf names. -/
def leafKey (node : Node) : String :=
  ((node.getString? defaultName).or (node.getString? "term")).getD ""

/-- The width of a window: the one asked for, or the one that the number of
children suggests. -/
def windowWidth (node : Node) (order : Window.Order) : Nat :=
  match node.getLong? defaultName, order with
  | some width, _ => width.toNat
  | none, .ordered => 1
  | none, .unordered => min (node.children.length * 2) BuildRequest.maxWidth

end Node

/-- What constructors from outside the library make of a node over an index with some
contents, from the meanings of its children. -/
abbrev Customs :=
  (BuildRequest → Step Forest Handle) → Contents → Node → List Meaning → Meaning

/-- No constructor from outside means anything. -/
def Customs.nothing : Customs := fun _ _ _ _ => .absent

/-- The meaning of a node with some implementation. -/
def Implementation.meaning (implementation : Implementation) (customs : Customs)
    (contents : Contents) (node : Node) (children : List Meaning) : Meaning :=
  match implementation with
  | .source withExtents =>
    match contents (Key.ofText node.leafKey) with
    | some postings => .source postings withExtents
    | none => .absent
  | .window order => (Combination.window order (node.windowWidth order)).meaning children
  | .synonym => Combination.synonym.meaning children
  | .conjunction => Combination.conjunction.meaning children
  | .union => Combination.union.meaning children
  | .combine => Combination.combine.meaning children
  | .feature => (children.headD .absent).feature
  | .null => .absent
  | .custom build => customs build contents node children

namespace Node

mutual

/-- The meaning of a tree over an index with some contents. -/
def meaning (registry : Registry) (customs : Customs) (contents : Contents) : Node → Meaning
  | ⟨operator, parameters, children⟩ =>
    match registry.resolve? operator with
    | some implementation =>
      implementation.meaning customs contents ⟨operator, parameters, children⟩
        (meanings registry customs contents children)
    | none => .absent

/-- The meanings of several trees. -/
def meanings (registry : Registry) (customs : Customs) (contents : Contents) :
    List Node → List Meaning
  | [] => []
  | child :: children =>
    meaning registry customs contents child :: meanings registry customs contents children

end

theorem meaning_eq {registry : Registry} {node : Node} {implementation : Implementation}
    (customs : Customs) (contents : Contents)
    (resolved : registry.resolve? node.operator = some implementation) :
    node.meaning registry customs contents =
      implementation.meaning customs contents node
        (meanings registry customs contents node.children) := by
  cases node with
  | mk operator parameters children =>
      dsimp only at resolved
      rw [meaning, resolved]

theorem meaning_unresolved {registry : Registry} {node : Node} (customs : Customs)
    (contents : Contents) (unknown : registry.resolve? node.operator = none) :
    node.meaning registry customs contents = .absent := by
  cases node with
  | mk operator parameters children =>
      dsimp only at unknown
      rw [meaning, unknown]

theorem meanings_eq_map (registry : Registry) (customs : Customs) (contents : Contents)
    (children : List Node) :
    meanings registry customs contents children =
      children.map (meaning registry customs contents) := by
  induction children with
  | nil => rfl
  | cons child children induction => rw [meanings, induction, List.map_cons]

end Node

end Concordance
