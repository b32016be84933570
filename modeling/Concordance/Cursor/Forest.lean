import Concordance.Cursor.Basic

/-!
# Forests

A forest holds cursors.  The children of a cursor stand before it.  Moving a
cursor moves its children as far as it needs: a combination that has to match
with all children moves them in turns until they agree on a document, any
other one takes the least document of a child.
-/

namespace Concordance

structure Forest where
  cursors : Array Cursor

namespace Forest

def empty : Forest := ⟨#[]⟩

/-- The cursor at a handle.  A place that is not taken has no documents. -/
def cursor (forest : Forest) (handle : Handle) : Cursor :=
  forest.cursors.getD handle.index (.null "")

/-- Put a cursor in place of the one at a handle. -/
def put (forest : Forest) (handle : Handle) (cursor : Cursor) : Forest :=
  ⟨forest.cursors.setIfInBounds handle.index cursor⟩

/-- Add a cursor behind the others. -/
def add (cursor : Cursor) : Step Forest Handle := fun forest =>
  .ok ⟨forest.cursors.size⟩ ⟨forest.cursors.push cursor⟩

/-- The cursor whose documents a handle shows: a feature shows its child's. -/
def subject (forest : Forest) (handle : Handle) : Cursor :=
  match forest.cursor handle with
  | .feature feature => forest.cursor feature.child
  | other => other

/-- The document on which a cursor stands; none when it is done. -/
def position (forest : Forest) (handle : Handle) : Option DocId :=
  (forest.subject handle).ownPosition

def isDone (forest : Forest) (handle : Handle) : Bool := (forest.position handle).isNone

/-- The document on which a cursor has to stand. -/
def candidate (forest : Forest) (handle : Handle) : Except Error DocId :=
  match forest.position handle with
  | some doc => .ok doc
  | none => .error (.exhausted (forest.subject handle).key)

/-- Whether a cursor stands on a document, which is then a match. -/
def hasMatch (forest : Forest) (handle : Handle) (doc : DocId) : Bool :=
  forest.position handle == some doc

def capabilities (forest : Forest) (handle : Handle) : Capabilities :=
  (forest.cursor handle).capabilities

def count (forest : Forest) (handle : Handle) : Except Error Nat :=
  (forest.cursor handle).count

def extents (forest : Forest) (handle : Handle) : Except Error (List Extent) :=
  (forest.cursor handle).extents

/-! ## What combinations match -/

/-- The greatest count that a combination reports. -/
def maxCount : Nat := 4294967295

/-- The sum of some counts. -/
def total (counts : List Nat) : Nat := counts.foldl (· + ·) 0

/-- The children of a combination that stand on a document. -/
def standing (forest : Forest) (children : List Handle) (doc : DocId) : List Handle :=
  children.filter fun child => forest.hasMatch child doc

/-- A match whose count is that of its extents, if there are extents. -/
def matchOf (doc : DocId) (extents : List Extent) : Option Match :=
  if extents.isEmpty then none else some ⟨doc, storedCount extents, extents⟩

/-- What a combination of children finds in a document. -/
def matchAt (forest : Forest) (combination : Combination) (children : List Handle)
    (doc : DocId) : Except Error (Option Match) :=
  match combination with
  | .conjunction =>
    pure (if children.all fun child => forest.hasMatch child doc then some ⟨doc, 1, []⟩ else none)
  | .union => do
    let counts ← (forest.standing children doc).mapM forest.count
    pure (if counts.isEmpty then none else some ⟨doc, min maxCount (total counts), []⟩)
  | .combine =>
    pure (if (forest.standing children doc).isEmpty then none else some ⟨doc, 0, []⟩)
  | .synonym => do
    let lists ← (forest.standing children doc).mapM forest.extents
    pure (matchOf doc (Extent.sort lists.flatten).eraseReps)
  | .window order width => do
    let lists ← children.mapM fun child =>
      if forest.hasMatch child doc then forest.extents child else pure []
    let windows ← Window.find order width lists
    pure (matchOf doc windows)

/-! ## Moving -/

/-- Moves one cursor to the first document at or behind a target. -/
abbrev Move := Handle → DocId → Step Forest Unit

/-- Move cursors to a target one after the other. -/
def moveAll (move : Move) (target : DocId) : List Handle → Step Forest Unit
  | [] => pure ()
  | child :: children => do
    move child target
    moveAll move target children

/-- The greatest document of some cursors, if none of them is done. -/
def greatest (forest : Forest) (children : List Handle) : Option DocId := do
  let docs ← children.mapM forest.position
  some (docs.foldl (fun most doc => if most < doc then doc else most) DocId.zero)

/-- The least document of those cursors that are not done. -/
def least (forest : Forest) (children : List Handle) : Option DocId :=
  (children.filterMap forest.position).foldl
    (fun found doc =>
      match found with
      | some most => if doc < most then some doc else some most
      | none => some doc)
    none

/-- Move cursors until all stand on one document at or behind a target.  There
is none once one of them is done. -/
def align (move : Move) (children : List Handle) (target : DocId) :
    Step Forest (Option DocId) := do
  moveAll move target children
  match (← get).greatest children with
  | none => pure none
  | some doc => if target < doc then align move children doc else pure (some target)
termination_by target.above
decreasing_by exact DocId.above_lt_above (by assumption)

/-- Move all children to a target and find the next document that can match. -/
def locate (move : Move) (combination : Combination) (children : List Handle)
    (target : DocId) : Step Forest (Option DocId) := do
  if combination.needsAll then align move children target
  else
    moveAll move target children
    pure ((← get).least children)

/-- Find the first match of a combination at or behind a target. -/
def seek (move : Move) (combination : Combination) (children : List Handle)
    (target : DocId) : Step Forest (Option Match) := do
  match ← locate move combination children target with
  | none => pure none
  | some doc =>
    match ← Step.ofExcept ((← get).matchAt combination children doc) with
    | some found => pure (some found)
    | none =>
      match doc.next? with
      | none => pure none
      | some next =>
        if target < next then seek move combination children next else pure none
termination_by target.above
decreasing_by exact DocId.above_lt_above (by assumption)

/-- Move a cursor whose descendants are less than `depth` levels deep.  A done
combination stays done, and one that stands at or behind the target stays
where it is. -/
def moveWithin : Nat → Move
  | 0, _, _ => pure ()
  | depth + 1, handle, target => do
    match (← get).cursor handle with
    | .null _ => pure ()
    | .leaf leaf =>
      match Leaf.moveTo target leaf with
      | .ok _ after => modify (·.put handle (.leaf after))
      | .error cause after =>
        modify (·.put handle (.leaf after))
        throw cause
    | .feature feature => moveWithin depth feature.child target
    | .composite composite =>
      match composite.current with
      | none => pure ()
      | some found =>
        if found.doc < target then
          let next ← seek (moveWithin depth) composite.combination composite.children target
          modify (·.put handle (.composite { composite with current := next }))

/-- Move a cursor to the first document at or behind a target. -/
def moveTo : Move := fun handle target => moveWithin (handle.index + 1) handle target

/-- End a cursor whose descendants are less than `depth` levels deep. -/
def exhaustWithin : Nat → Handle → Forest → Forest
  | 0, _, forest => forest
  | depth + 1, handle, forest =>
    match forest.cursor handle with
    | .null _ => forest
    | .leaf leaf => forest.put handle (.leaf leaf.exhaust)
    | .feature feature => exhaustWithin depth feature.child forest
    | .composite composite => forest.put handle (.composite { composite with current := none })

/-- Leave the documents of a cursor for good. -/
def exhaust (forest : Forest) (handle : Handle) : Forest :=
  exhaustWithin (handle.index + 1) handle forest

/-- Move a cursor behind a document. -/
def movePast (handle : Handle) (doc : DocId) : Step Forest Unit :=
  match doc.next? with
  | some next => moveTo handle next
  | none => modify (·.exhaust handle)

end Forest

end Concordance
