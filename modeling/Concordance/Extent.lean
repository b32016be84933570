/-!
# Extents

An extent is a half-open span of token positions inside one document.  The
positions are 32-bit numbers.  Extents sort by start and then by stop.
-/

namespace Concordance

/-- The positions from `start` up to but not including `stop`. -/
structure Extent where
  start : Nat
  stop : Nat
  start_lt : start < 4294967296 := by omega
  stop_lt : stop < 4294967296 := by omega
  deriving DecidableEq

namespace Extent

/-- The extent between two positions, which wrap around. -/
def ofNats (start stop : Nat) : Extent :=
  ⟨start % 4294967296, stop % 4294967296, Nat.mod_lt _ (Nat.zero_lt_succ _),
    Nat.mod_lt _ (Nat.zero_lt_succ _)⟩

/-- The extent between two positions, if both are in range. -/
def ofNats? (start stop : Nat) : Option Extent :=
  if bounds : start < 4294967296 ∧ stop < 4294967296 then
    some ⟨start, stop, bounds.1, bounds.2⟩
  else none

/-- The last position there is; a single occurrence at it has an empty extent. -/
def lastPosition : Nat := 4294967295

/-- The extent of one occurrence at a position. -/
def point? (position : Nat) : Option Extent :=
  ofNats? position (min (position + 1) lastPosition)

/-- The number of positions covered by an extent that is the right way round. -/
def width (extent : Extent) : Nat := extent.stop - extent.start

/-- Order by start and then by stop. -/
def atMost (first second : Extent) : Bool :=
  first.start < second.start ||
    (first.start == second.start && first.stop ≤ second.stop)

/-- The same extents in ascending order. -/
def sort (extents : List Extent) : List Extent := extents.mergeSort atMost

/-- Whether extents can stand in a posting after one that starts at `floor`:
each is the right way round and none starts before the one in front of it. -/
def inOrder : Nat → List Extent → Bool
  | _, [] => true
  | floor, extent :: extents =>
    if extent.stop < extent.start || extent.start < floor then false
    else inOrder extent.start extents

end Extent

end Concordance
