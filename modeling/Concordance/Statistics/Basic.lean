import Concordance.Error

/-!
# Statistics

The statistics of a node sum up the documents that it matches: how many there
are, how often it occurs in all of them and how often in one at most.  They
carry the size of the whole collection beside them.
-/

namespace Concordance

/-- The size of a collection: all its tokens and all its documents. -/
structure Collection where
  length : Nat
  documents : Nat
  deriving DecidableEq

def Collection.empty : Collection := ⟨0, 0⟩

/-- The figures of one node. -/
structure Statistics where
  node : String
  /-- Sum of the counts over the matching documents. -/
  frequency : Nat
  /-- Number of matching documents. -/
  documents : Nat
  /-- Greatest count of one document. -/
  maximum : Nat
  collection : Collection
  deriving DecidableEq

namespace Statistics

/-- The figures of a node that matches nothing. -/
def new (node : String) (collection : Collection) : Statistics :=
  ⟨node, 0, 0, 0, collection⟩

/-- Counters are 64-bit words. -/
def counterLimit : Nat := 18446744073709551616

/-- The figures with one more matching document. -/
def addMatch (statistics : Statistics) (count : Nat) : Except Error Statistics :=
  if statistics.frequency + count < counterLimit ∧ statistics.documents + 1 < counterLimit then
    .ok
      { statistics with
        frequency := statistics.frequency + count
        documents := statistics.documents + 1
        maximum := max statistics.maximum count }
  else .error .countersOverflow

/-- The figures with the matching documents of a list, each with its count. -/
def addMatches (statistics : Statistics) (matched : List (DocId × Nat)) :
    Except Error Statistics :=
  matched.foldlM (fun statistics found => statistics.addMatch found.2) statistics

/-- Whether some list of matching documents can have these figures. -/
def isConsistent (statistics : Statistics) : Bool :=
  statistics.documents ≤ statistics.frequency &&
    statistics.maximum ≤ statistics.frequency &&
    ((statistics.maximum == 0) == (statistics.documents == 0))

/-- The share of the collection's tokens that the node's occurrences make up. -/
def probability (statistics : Statistics) : Float :=
  if statistics.collection.length = 0 then 0
  else
    statistics.frequency.toUInt64.toFloat / statistics.collection.length.toUInt64.toFloat

end Statistics

end Concordance
