import Concordance.Cursor.Forest
import Concordance.Index.Basic

/-!
# Building cursors

A combination is built over cursors that stand in the forest already.  It
checks that they can do what it needs of them and stands on its first match
from the start.
-/

namespace Concordance

namespace Combination

/-- The name of a combination in messages about its children. -/
def operatorName : Combination → String
  | conjunction => "band"
  | union => "bor"
  | combine => "combine"
  | synonym => "syn"
  | window .ordered _ => "od"
  | window .unordered _ => "uw"

/-- What every child has to offer. -/
def needs : Combination → Capabilities
  | conjunction | combine => Capabilities.none
  | union => Capabilities.onlyCount
  | synonym | window .. => Capabilities.onlyExtents

/-- A combination in the message that it has no children. -/
def parentName : Combination → String
  | union | combine => "Union"
  | other => "#" ++ other.operatorName

end Combination

namespace Forest

/-- Refuse children that do not offer what is needed. -/
def require (forest : Forest) (operator : String) (needed : Capabilities) :
    List Handle → Except Error Unit
  | [] => pure ()
  | child :: children => do
    let offered := forest.capabilities child
    if offered.covers needed then forest.require operator needed children
    else throw (.childLacks operator needed (forest.cursor child).key offered)

/-- Refuse children over which a combination cannot be built. -/
def checkChildren (forest : Forest) (combination : Combination) (children : List Handle) :
    Except Error Unit := do
  if children.isEmpty then throw (.noChildren combination.parentName)
  forest.require combination.operatorName combination.needs children

/-- Add a combination of cursors, standing on its first match. -/
def addComposite (key : String) (combination : Combination) (children : List Handle) :
    Step Forest Handle := do
  Step.ofExcept ((← get).checkChildren combination children)
  let first ← seek moveTo combination children DocId.zero
  add (.composite ⟨key, combination, children, first⟩)

/-- Add a feature over one counting cursor. -/
def addFeature (key : String) (children : List Handle) (estimator : EstimatorId)
    (scorer : String) : Step Forest Handle := do
  match children with
  | [child] =>
    Step.ofExcept ((← get).require "feature" Capabilities.onlyCount [child])
    add (.feature ⟨key, child, estimator, scorer⟩)
  | others => throw (.featureArity others.length)

/-- Add a leaf on the first posting of a block. -/
def addLeaf (key : Key) (block : List UInt8) (withExtents : Bool) : Step Forest Handle := do
  let leaf ← Step.ofExcept (Leaf.open? key block withExtents)
  add (.leaf leaf)

/-- Add a leaf for a key, if the index has the key. -/
def addSource? (index : Index) (key : Key) (withExtents : Bool) :
    Step Forest (Option Handle) := do
  match ← Step.ofExcept (index.block? key) with
  | some block => return some (← addLeaf key block withExtents)
  | none => return none

/-- What the child of a feature counts in a document. -/
def childCount (forest : Forest) (feature : Feature) (doc : DocId) : Except Error Nat :=
  if forest.hasMatch feature.child doc then forest.count feature.child else .ok 0

end Forest

end Concordance
