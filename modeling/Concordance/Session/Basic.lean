import Concordance.Compile.Basic
import Concordance.Cursor.Scan
import Concordance.Session.Config
import Concordance.Session.OccurrenceCache

/-!
# Sessions

A session answers questions about one index.  It holds what lives as long as
it does: the configuration, the operators, the table of counts, the candidate
documents and the cache of occurrences.  Statistics of a node come from the
cheapest source that has them: the figures of its own cursor, the table of
counts, or a scan.
-/

namespace Concordance

/-- Documents in ascending order, each once. -/
def ascendingDocs (docs : List DocId) : List DocId :=
  (docs.mergeSort fun first second => first ≤ second).eraseReps

structure Session where
  index : Index
  config : Config
  registry : Registry
  collection : Collection
  counts : Option CountTable
  /-- The documents whose counts a one-pass scan keeps. -/
  candidates : Option (List DocId)
  /-- The documents that a sampled scan visits. -/
  sample : Option (List DocId)
  cache : OccurrenceCache

namespace Session

/-- The size of the collection, as the configuration or else the index has it. -/
def effectiveCollection (index : Index) (config : Config) : Collection :=
  ⟨config.collectionLength.getD index.collection.length,
    config.documentCount.getD index.collection.documents⟩

/-- Start a session on an index.  A table of counts that cannot be loaded from
its file prevents it. -/
def start (index : Index) (config : Config) (file : String → StoredFile) :
    Except Error Session := do
  let collection := effectiveCollection index config
  let counts ← config.countsFile.mapM fun name => CountTable.load (file name) collection
  pure
    { index := index
      config := config
      registry := Registry.withOverrides config.operators
      collection := collection
      counts := counts
      candidates := none
      sample := none
      cache := OccurrenceCache.empty }

/-- Open an index file and start a session on it. -/
def open? (indexFile : StoredFile) (config : Config) (file : String → StoredFile) :
    Except Error Session := do
  let index ← Index.open? indexFile true
  start index config file

def setCandidates (session : Session) (docs : List DocId) : Session :=
  { session with candidates := some (ascendingDocs docs) }

def setSample (session : Session) (docs : List DocId) : Session :=
  { session with sample := some (ascendingDocs docs) }

/-- A compiler with the session's index, operators, counts and scorer. -/
def compiler (session : Session) (shareNodes : Bool) : Compiler :=
  { index := session.index
    registry := session.registry
    counts := session.counts
    scorer := session.config.scorer
    shareNodes := shareNodes }

/-- The statistics of a node's own cursor or of the table of counts. -/
def knownStatistics? (session : Session) (node : Node) (cursor : Cursor) :
    Option Statistics :=
  match cursor.statistics? session.collection with
  | some figures => some { figures with node := node.signature }
  | none =>
    if CountTable.isWindowOperator node.operator then
      (session.counts.bind fun table => table.get? node.signature).map fun figures =>
        { figures with node := node.signature }
    else none

/-- The matches that a scan of some mode finds, with their counts. -/
def collect (session : Session) (mode : Completion) (handle : Handle) :
    Step Forest (List (DocId × Nat)) :=
  match mode with
  | .full | .onepass => Forest.scan handle
  | .sampled => Forest.sampledScan handle (session.sample.getD [])

/-- Scan a cursor from where it stands.  The result is the statistics, under a
name, and what the scan keeps: the candidates that a one-pass scan met, and all
that a sampled scan found.  Where no documents were given there are none to
keep or to visit. -/
def scanCursor (session : Session) (name : String) (mode : Completion) (handle : Handle) :
    Step Forest (Statistics × Option (List (DocId × Nat))) := do
  let found ← session.collect mode handle
  let figures ← Step.ofExcept ((Statistics.new name session.collection).addMatches found)
  let candidates := session.candidates.getD []
  let kept :=
    match mode with
    | .full => none
    | .onepass => some (found.filter fun pair => candidates.contains pair.1)
    | .sampled => some found
  pure (figures, kept)

/-- Refuse a mode for which the session lacks documents. -/
def requireDocs (session : Session) : Completion → Except Error Unit
  | .full => pure ()
  | .onepass => if session.candidates.isNone then throw .noCandidates else pure ()
  | .sampled => if session.sample.isNone then throw .noSample else pure ()

/-- The statistics of a node by a scan of its cursor.  What the scan keeps is
published under the key of the cursor. -/
def scanStatistics (node : Node) (mode : Completion) (forest : Forest) (handle : Handle) :
    Step Session Statistics := do
  let session ← get
  Step.ofExcept (session.requireDocs mode)
  let (figures, kept) ←
    Step.ofExcept ((session.scanCursor node.signature mode handle).evaluate forest)
  if let some pairs := kept then
    set { session with cache := session.cache.publish (forest.cursor handle).key pairs }
  pure figures

/-- The statistics of a node, completed by a scan of some mode if need be.  The
node is compiled on its own, so that the scan has a fresh cursor. -/
def statisticsWith (node : Node) (mode : Completion) : Step Session Statistics := do
  let session ← get
  match (session.compiler false).build node ⟨Forest.empty, ScoringContext.new⟩ with
  | .error cause _ => throw cause
  | .ok handle bench =>
    let cursor := bench.forest.cursor handle
    match session.knownStatistics? node cursor with
    | some figures => pure figures
    | none =>
      if cursor.capabilities.count then scanStatistics node mode bench.forest handle
      else throw (.notCounting node.signature cursor.capabilities)

/-- The statistics of a node, completed as the configuration says. -/
def statistics (node : Node) : Step Session Statistics := do
  statisticsWith node (← get).config.completion

/-- A feature node with the statistics of its child as parameters. -/
def annotate (node : Node) : Step Session Node := do
  let session ← get
  if session.registry.implementationId? node.operator ≠ some "feature" then
    throw (.notAFeature node.text)
  match node.children with
  | [] => throw (.featureWithoutChild node.text)
  | child :: _ =>
    let figures ← statistics child
    pure
      ((((((node.setParam "nodeFrequency" (.ofCount figures.frequency)).setParam
        "nodeDocumentCount" (.ofCount figures.documents)).setParam
        "maximumCount" (.ofCount figures.maximum)).setParam
        "collectionLength" (.ofCount figures.collection.length)).setParam
        "documentCount" (.ofCount figures.collection.documents)).setParam
        "collectionProbability" (.double figures.probability))

end Session

end Concordance
