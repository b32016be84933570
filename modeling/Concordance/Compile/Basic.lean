import Concordance.Compile.Bounds
import Concordance.Compile.Registry
import Concordance.Statistics.CountTable

/-!
# Compiling queries

A tree of nodes is compiled to cursors, children first.  With sharing on, equal
children of one parent become one cursor, and a whole tree that was compiled
before is not compiled again.  Equal subtrees under different parents stay
apart: each parent drives its own.
-/

namespace Concordance

/-- What compiling changes: the forest and the scoring context. -/
structure Workbench where
  forest : Forest
  context : ScoringContext

namespace Workbench

def onForest {α : Type} (step : Step Forest α) : Step Workbench α :=
  step.onPart forest fun bench forest => { bench with forest := forest }

def allocate : Step Workbench EstimatorId := do
  let bench ← get
  let (estimator, context) := bench.context.allocate
  set { bench with context := context }
  pure estimator

end Workbench

/-- The cursors of whole trees, each under the text of its tree.  The place of
an entry is the entry's number. -/
structure Arena where
  entries : Array (String × Handle)

namespace Arena

def empty : Arena := ⟨#[]⟩

def size (arena : Arena) : Nat := arena.entries.size

/-- The number of the entry of a text. -/
def number? (arena : Arena) (text : String) : Option Nat :=
  arena.entries.findIdx? fun entry => entry.1 == text

/-- The cursor under a text. -/
def get? (arena : Arena) (text : String) : Option Handle :=
  (arena.entries.find? fun entry => entry.1 == text).map (·.2)

/-- Put a cursor under a text that has none. -/
def insert (arena : Arena) (text : String) (handle : Handle) : Arena :=
  ⟨arena.entries.push (text, handle)⟩

end Arena

structure Compiler where
  index : Index
  registry : Registry
  counts : Option CountTable
  scorer : String
  shareNodes : Bool

namespace Compiler

/-- The bound that a table of counts gives for a window: its number of
documents or of occurrences, as the scorer needs it, but never zero. -/
def tableBound (scorer : String) (statistics : Statistics) : Bound :=
  let value := if scorer == "bm25" then statistics.documents else statistics.frequency
  ⟨max value 1, max value 1⟩

/-- The bound of an estimator over a window whose counts are in the table. -/
def boundFor? (compiler : Compiler) (children : List Node) : Option Bound := do
  let table ← compiler.counts
  let child ← children.head?
  if CountTable.isWindowOperator child.operator then
    (table.get? child.signature).map (tableBound compiler.scorer)
  else none

/-- Note the bound of an estimating cursor if there is one. -/
def seedBound (compiler : Compiler) (children : List Node) (handle : Handle) :
    Step Workbench Unit :=
  modify fun bench =>
    match (bench.forest.cursor handle).estimator?, compiler.boundFor? children with
    | some estimator, some bound =>
      { bench with context := bench.context.setBound estimator bound }
    | _, _ => bench

mutual

/-- Compile a node over its compiled children. -/
def build (compiler : Compiler) : Node → Step Workbench Handle
  | ⟨operator, parameters, children⟩ => do
    let node : Node := ⟨operator, parameters, children⟩
    let handles ← compiler.buildChildren [] children
    let estimator ← Workbench.allocate
    let handle ← Workbench.onForest
      (compiler.registry.build
        { node := node
          signature := node.signature
          children := handles
          index := compiler.index
          estimator := estimator
          scorer := compiler.scorer })
    compiler.seedBound children handle
    pure handle

/-- Compile the children of one parent.  `built` holds those compiled already,
under their texts. -/
def buildChildren (compiler : Compiler) (built : List (String × Handle)) :
    List Node → Step Workbench (List Handle)
  | [] => pure []
  | child :: children => do
    match if compiler.shareNodes then built.lookup child.text else none with
    | some handle =>
      let later ← compiler.buildChildren built children
      pure (handle :: later)
    | none =>
      let handle ← compiler.build child
      let later ← compiler.buildChildren ((child.text, handle) :: built) children
      pure (handle :: later)

end

/-- Compile a whole tree.  With sharing on the arena is asked first and keeps
the new cursor. -/
def compile (compiler : Compiler) (node : Node) (arena : Arena) :
    Step Workbench (Handle × Arena) := do
  if compiler.shareNodes then
    match arena.get? node.text with
    | some handle => pure (handle, arena)
    | none =>
      let handle ← compiler.build node
      pure (handle, arena.insert node.text handle)
  else
    let handle ← compiler.build node
    pure (handle, arena)

end Compiler

end Concordance
