import Concordance.Cursor.Leaf
import Concordance.Window

/-!
# Cursors

A cursor walks over the documents that one node of a query matches.  It stands
on a matching document or is done, and it only moves forward.  Cursors live in
a forest and name their children by handles, so that two parents, or a parent
and its user, can hold the same cursor.
-/

namespace Concordance

/-- The place of a cursor in a forest. -/
structure Handle where
  index : Nat
  deriving DecidableEq

/-- The identity under which the bounds of an estimating cursor are kept. -/
structure EstimatorId where
  number : Nat
  deriving DecidableEq

/-- A document that a combination of cursors matches. -/
structure Match where
  doc : DocId
  count : Nat
  extents : List Extent
  deriving DecidableEq

/-- The ways to combine cursors. -/
inductive Combination where
  /-- Documents that all children match, each counting once. -/
  | conjunction
  /-- Documents that some child matches, counting what the children count. -/
  | union
  /-- Documents that some child matches, without counts. -/
  | combine
  /-- Documents that some child matches, with the children's extents merged. -/
  | synonym
  /-- Documents in which the children's extents form windows of some width. -/
  | window (order : Window.Order) (width : Nat)
  deriving DecidableEq

namespace Combination

/-- Whether every child has to stand on a document for it to match. -/
def needsAll : Combination → Bool
  | conjunction | window .. => true
  | union | combine | synonym => false

def capabilities : Combination → Capabilities
  | conjunction | union => Capabilities.onlyCount
  | combine => Capabilities.none
  | synonym | window .. => Capabilities.countAndExtents

end Combination

/-- A cursor that combines other cursors. -/
structure Composite where
  key : String
  combination : Combination
  children : List Handle
  /-- The document it stands on. -/
  current : Option Match

namespace Composite

def count (composite : Composite) : Except Error Nat :=
  if composite.combination.capabilities.count then
    match composite.current with
    | some found => .ok found.count
    | none => .error (.exhausted composite.key)
  else .error (.noCounts composite.key)

def extents (composite : Composite) : Except Error (List Extent) :=
  if composite.combination.capabilities.extents then
    match composite.current with
    | some found => .ok found.extents
    | none => .error (.exhausted composite.key)
  else .error (.noExtents composite.key)

end Composite

/-- A cursor that shows the counts of one child to a scorer. -/
structure Feature where
  key : String
  child : Handle
  estimator : EstimatorId
  scorer : String

inductive Cursor where
  /-- Stands for a key that an index does not have. -/
  | null (key : String)
  | leaf (leaf : Leaf)
  | composite (composite : Composite)
  | feature (feature : Feature)

namespace Cursor

/-- The index key of a leaf, the signature of a node otherwise. -/
def key : Cursor → String
  | null key => key
  | leaf source => source.key
  | composite parent => parent.key
  | feature wrapper => wrapper.key

def capabilities : Cursor → Capabilities
  | null _ => Capabilities.allButEstimator
  | leaf source => source.capabilities
  | composite parent => parent.combination.capabilities
  | feature _ => Capabilities.onlyEstimator

/-- The document a cursor stands on, unless it leaves that to its child. -/
def ownPosition : Cursor → Option DocId
  | null _ => none
  | leaf source => source.reader.current
  | composite parent => parent.current.map Match.doc
  | feature _ => none

/-- Occurrences in the current document. -/
def count : Cursor → Except Error Nat
  | null key => .error (.exhausted key)
  | leaf source => source.count
  | composite parent => parent.count
  | feature wrapper => .error (.noCounts wrapper.key)

/-- Extents in the current document. -/
def extents : Cursor → Except Error (List Extent)
  | null key => .error (.exhausted key)
  | leaf source => source.extents
  | composite parent => parent.extents
  | feature wrapper => .error (.noExtents wrapper.key)

/-- Statistics that are known without a scan. -/
def statistics? (collection : Collection) : Cursor → Option Statistics
  | null key => some (Statistics.new key collection)
  | leaf source => some (source.statistics collection)
  | composite _ | feature _ => none

def estimator? : Cursor → Option EstimatorId
  | feature wrapper => some wrapper.estimator
  | null _ | leaf _ | composite _ => none

end Cursor

end Concordance
