import Concordance.Error
import Concordance.Extent

/-!
# Windows

A window is a stretch of one document in which one extent of each of several
lists lies.  In an ordered window every extent starts at or behind the end of
the one before, less than the width behind it.  An unordered window covers its
extents in any order and is no longer than the width.  Both are found in one
sweep over lists that are sorted by start.
-/

namespace Concordance

namespace Window

/-- How following the lists from one first extent ends. -/
inductive Chain where
  /-- The last extent of a complete chain. -/
  | complete (last : Extent)
  /-- The next extent lies too far away. -/
  | broken
  /-- A list has no extent left. -/
  | ended

/-- Follow the lists behind an extent.  Of each list the extents that start
before the end reached are dropped for good; lists behind a break stay as they
are. -/
def follow (width : Nat) : Extent → List (List Extent) → Chain × List (List Extent)
  | last, [] => (.complete last, [])
  | last, list :: lists =>
    match list.dropWhile fun extent => extent.start < last.stop with
    | [] => (.ended, [] :: lists)
    | next :: later =>
      if width ≤ next.start - last.stop then (.broken, (next :: later) :: lists)
      else
        let (chain, rest) := follow width next lists
        (chain, (next :: later) :: rest)

/-- The windows behind those found so far, one for each first extent from
which a chain is complete. -/
def sweepOrdered (width : Nat) :
    List Extent → List (List Extent) → Array Extent → Array Extent
  | [], _, found => found
  | first :: firsts, lists, found =>
    match follow width first lists with
    | (.complete last, rest) =>
      sweepOrdered width firsts rest
        (found.push ⟨first.start, last.stop, first.start_lt, last.stop_lt⟩)
    | (.broken, rest) => sweepOrdered width firsts rest found
    | (.ended, _) => found

/-- The windows in which the lists occur in order. -/
def ordered (width : Nat) (lists : List (List Extent)) : List Extent :=
  if lists.any List.isEmpty then []
  else
    match lists with
    | [] => []
    | firsts :: others => (sweepOrdered width firsts others #[]).toList

/-- The heads of lists that are not empty. -/
def heads (lists : List (List Extent)) : List Extent := lists.filterMap List.head?

/-- The stretch from the least start to the greatest stop of some extents. -/
def cover (extents : List Extent) : Option Extent :=
  extents.foldl
    (fun covered extent =>
      match covered with
      | none => some extent
      | some whole =>
        some
          ⟨min whole.start extent.start, max whole.stop extent.stop,
            Nat.lt_of_le_of_lt (Nat.min_le_left _ _) whole.start_lt,
            Nat.max_lt.mpr ⟨whole.stop_lt, extent.stop_lt⟩⟩)
    none

/-- Drop the head of the first list that starts at a position. -/
def dropStart (start : Nat) : List (List Extent) → List (List Extent)
  | [] => []
  | [] :: lists => [] :: dropStart start lists
  | (head :: later) :: lists =>
    if head.start = start then later :: lists else (head :: later) :: dropStart start lists

/-- The windows behind those found so far: each is what the heads of the lists
cover, and the head that starts first is dropped behind it.  The sweep ends
when a list has no head left, in at most `limit` rounds. -/
def sweepUnordered (width : Nat) :
    Nat → List (List Extent) → Array Extent → Except Error (Array Extent)
  | 0, _, found => .ok found
  | limit + 1, lists, found =>
    if lists.any List.isEmpty then .ok found
    else
      match cover (heads lists) with
      | none => .ok found
      | some whole =>
        if whole.stop < whole.start then .error .windowOverflow
        else
          sweepUnordered width limit (dropStart whole.start lists)
            (if whole.stop - whole.start ≤ width then found.push whole else found)

/-- The windows in which the lists occur in any order. -/
def unordered (width : Nat) (lists : List (List Extent)) : Except Error (List Extent) :=
  (sweepUnordered width lists.flatten.length lists #[]).map Array.toList

/-- The two sorts of window. -/
inductive Order where
  | ordered
  | unordered
  deriving DecidableEq

/-- The windows of one sort. -/
def find (order : Order) (width : Nat) (lists : List (List Extent)) :
    Except Error (List Extent) :=
  match order with
  | .ordered => .ok (ordered width lists)
  | .unordered => unordered width lists

end Window

end Concordance
