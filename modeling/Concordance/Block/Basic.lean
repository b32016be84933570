import Concordance.Posting

/-!
# Blocks of postings

The postings of one key are stored as one block.  At its head stand nine
numbers: the three figures of the summary, the skip interval, the number of
skip entries and the byte lengths of four streams.  The streams follow: the
skip entries, the gaps between the documents, the counts, and for each extent
the gap from the start before it and its width.  Documents, counts and extents
lie in streams of their own, so a reader that only counts never touches the
bytes of extents.
-/

namespace Concordance

namespace Block

/-- The figures of a whole list of postings. -/
structure Summary where
  /-- Number of documents. -/
  docs : Nat
  /-- Sum of the counts. -/
  total : Nat
  /-- Greatest count. -/
  largest : Nat
  deriving DecidableEq

namespace Summary

def empty : Summary := ⟨0, 0, 0⟩

/-- The summary after one more document with this count. -/
def add (summary : Summary) (count : Nat) : Summary :=
  ⟨summary.docs + 1, summary.total + count, max summary.largest count⟩

/-- Whether some list of postings can have these figures. -/
def isConsistent (summary : Summary) : Bool :=
  summary.docs ≤ summary.total && summary.largest ≤ summary.total &&
    ((summary.docs == 0) == (summary.total == 0))

end Summary

/-- A place inside a block where reading can start: the document before it and
how far into each stream it lies. -/
structure SkipEntry where
  lastDoc : DocId
  docsOffset : Nat
  countsOffset : Nat
  extentsOffset : Nat
  deriving DecidableEq

/-- The start of the streams, from which the first skip entry counts. -/
def SkipEntry.origin : SkipEntry := ⟨DocId.zero, 0, 0, 0⟩

/-- The number of skip entries of a block: one before each group of `interval`
documents but the first. -/
def skipsFor (docs interval : Nat) : Nat := (docs - 1) / interval

end Block

end Concordance
