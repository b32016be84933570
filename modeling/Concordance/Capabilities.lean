/-!
# Capabilities

What a cursor can do beyond iterating is declared when it is built.  A parent
checks the declarations of its children once and relies on them from then on.
-/

namespace Concordance

/-- The operations that a cursor supports besides iteration. -/
structure Capabilities where
  /-- Occurrences of each matching document. -/
  count : Bool
  /-- Extents of each matching document. -/
  extents : Bool
  /-- Statistics without a scan. -/
  aggregate : Bool
  /-- An identity under which score bounds are kept. -/
  estimator : Bool
  deriving DecidableEq

namespace Capabilities

def none : Capabilities := ⟨false, false, false, false⟩

def onlyCount : Capabilities := { none with count := true }

def onlyExtents : Capabilities := { none with extents := true }

def onlyEstimator : Capabilities := { none with estimator := true }

def countAndExtents : Capabilities := { none with count := true, extents := true }

def countAndAggregate : Capabilities := { none with count := true, aggregate := true }

def allButEstimator : Capabilities :=
  { none with count := true, extents := true, aggregate := true }

/-- Whether everything needed is offered. -/
def covers (offered needed : Capabilities) : Bool :=
  (offered.count || !needed.count) && (offered.extents || !needed.extents) &&
    (offered.aggregate || !needed.aggregate) &&
    (offered.estimator || !needed.estimator)

/-- The names of the members in a fixed order. -/
def names (capabilities : Capabilities) : List String :=
  (if capabilities.count then ["count"] else []) ++
    (if capabilities.extents then ["extents"] else []) ++
    (if capabilities.aggregate then ["aggregate"] else []) ++
    (if capabilities.estimator then ["estimator"] else [])

/-- A set of capabilities as messages show it. -/
def describe (capabilities : Capabilities) : String :=
  match capabilities.names with
  | [] => "Capabilities(0x0)"
  | members =>
    "Capabilities(" ++ " | ".intercalate (members.map String.toUpper) ++ ")"

end Capabilities

end Concordance
