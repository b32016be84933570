import Concordance.DocId
import Concordance.TextMap

/-!
# The cache of occurrences

A scan that keeps what it finds leaves the documents with their counts under
the key of its cursor, in place of what an earlier scan left.  Look-ups are
counted by whether the key is there.
-/

namespace Concordance

structure OccurrenceCache where
  entries : TextMap (List (DocId × Nat))
  hits : Nat
  misses : Nat

namespace OccurrenceCache

def empty : OccurrenceCache := ⟨TextMap.empty, 0, 0⟩

/-- What is kept under a key, and the cache that has counted the look-up. -/
def get? (cache : OccurrenceCache) (key : String) :
    Option (List (DocId × Nat)) × OccurrenceCache :=
  match cache.entries.get? key with
  | some pairs => (some pairs, { cache with hits := cache.hits + 1 })
  | none => (none, { cache with misses := cache.misses + 1 })

/-- Halve a stretch of ascending pairs until one is left: the last pair of the
stretch whose document is not above the one looked for, or its first pair. -/
def bisect (pairs : Array (DocId × Nat)) (doc : DocId) : Nat → Nat → Nat → Nat
  | 0, base, _ => base
  | limit + 1, base, size =>
    if size ≤ 1 then base
    else
      let half := size / 2
      let above : Bool :=
        match pairs[base + half]? with
        | some pair => doc < pair.1
        | none => true
      bisect pairs doc limit (if above then base else base + half) (size - half)

/-- The count of a document in ascending pairs. -/
def countIn (pairs : List (DocId × Nat)) (doc : DocId) : Option Nat :=
  let table := pairs.toArray
  match table[bisect table doc table.size 0 table.size]? with
  | some pair => if pair.1 = doc then some pair.2 else none
  | none => none

/-- The count kept for a document under a key, and the cache that has counted
the look-up. -/
def count? (cache : OccurrenceCache) (key : String) (doc : DocId) :
    Option Nat × OccurrenceCache :=
  let (pairs, cache) := cache.get? key
  (pairs.bind fun pairs => countIn pairs doc, cache)

/-- Keep pairs under a key. -/
def publish (cache : OccurrenceCache) (key : String) (pairs : List (DocId × Nat)) :
    OccurrenceCache :=
  { cache with entries := cache.entries.insert key pairs }

/-- Take out what is kept under a key. -/
def remove (cache : OccurrenceCache) (key : String) :
    Option (List (DocId × Nat)) × OccurrenceCache :=
  (cache.entries.get? key, { cache with entries := cache.entries.erase key })

/-- Take everything out.  The look-ups stay counted. -/
def clear (cache : OccurrenceCache) : OccurrenceCache :=
  { cache with entries := TextMap.empty }

def size (cache : OccurrenceCache) : Nat := cache.entries.size

def isEmpty (cache : OccurrenceCache) : Bool := cache.entries.isEmpty

/-- The share of the look-ups that found their key. -/
def hitRate (cache : OccurrenceCache) : Float :=
  let total := cache.hits + cache.misses
  if total = 0 then 0 else cache.hits.toUInt64.toFloat / total.toUInt64.toFloat

end OccurrenceCache

end Concordance
