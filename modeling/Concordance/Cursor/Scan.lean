import Concordance.Cursor.Forest

/-!
# Scans

A scan collects what a cursor matches.  A full scan visits every document from
where the cursor stands; a sampled scan visits only given documents, in
ascending order.  The statistics of a node sum up either list.
-/

namespace Concordance

namespace Forest

/-- The matches of a cursor with their counts, behind those found so far.  The
document it stands on never lies below `floor`. -/
def scanFrom (handle : Handle) (floor : Nat) (found : Array (DocId × Nat)) :
    Step Forest (Array (DocId × Nat)) := do
  let forest ← get
  match forest.position handle with
  | none => pure found
  | some doc =>
    if floor ≤ doc.val then
      let count ← Step.ofExcept (forest.count handle)
      movePast handle doc
      scanFrom handle (doc.val + 1) (found.push (doc, count))
    else pure found
termination_by 18446744073709551616 - floor
decreasing_by
  have bound := doc.val_lt
  omega

/-- All matches of a cursor from where it stands, with their counts. -/
def scan (handle : Handle) : Step Forest (List (DocId × Nat)) := do
  return (← scanFrom handle 0 #[]).toList

/-- The matches of a cursor among given documents, behind those found so far.
The visit ends once the cursor is done. -/
def visit (handle : Handle) :
    List DocId → Array (DocId × Nat) → Step Forest (Array (DocId × Nat))
  | [], found => pure found
  | doc :: docs, found => do
    moveTo handle doc
    let forest ← get
    match forest.position handle with
    | none => pure found
    | some current =>
      if current = doc then
        let count ← Step.ofExcept (forest.count handle)
        visit handle docs (found.push (doc, count))
      else visit handle docs found

/-- The matches of a cursor among the documents of a sample. -/
def sampledScan (handle : Handle) (sample : List DocId) :
    Step Forest (List (DocId × Nat)) := do
  return (← visit handle sample #[]).toList

/-- A match as a cursor shows it; what the cursor does not support is absent. -/
structure Shown where
  doc : DocId
  count : Option Nat
  extents : Option (List Extent)

/-- What a cursor shows of the document it stands on. -/
def show? (forest : Forest) (handle : Handle) (doc : DocId) : Except Error Shown := do
  let capabilities := forest.capabilities handle
  let count ← if capabilities.count then some <$> forest.count handle else pure none
  let extents ← if capabilities.extents then some <$> forest.extents handle else pure none
  pure ⟨doc, count, extents⟩

/-- The matches of a cursor as it shows them, behind those found so far, up to
a number of them if one is given. -/
def drainFrom (handle : Handle) (limit : Option Nat) (floor : Nat) (found : Array Shown) :
    Step Forest (Array Shown) := do
  if limit.any (· ≤ found.size) then return found
  let forest ← get
  match forest.position handle with
  | none => pure found
  | some doc =>
    if floor ≤ doc.val then
      let shown ← Step.ofExcept (forest.show? handle doc)
      movePast handle doc
      drainFrom handle limit (doc.val + 1) (found.push shown)
    else pure found
termination_by 18446744073709551616 - floor
decreasing_by
  have bound := doc.val_lt
  omega

/-- The matches of a cursor as it shows them, up to a number of them. -/
def drain (handle : Handle) (limit : Option Nat) : Step Forest (List Shown) := do
  return (← drainFrom handle limit 0 #[]).toList

end Forest

end Concordance
