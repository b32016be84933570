import Concordance.Proofs.Session.Answers
import Concordance.Proofs.Session.Sources

/-!
# Consistent statistics

What a session answers when it is asked for the statistics of a node could be
the figures of some list of matches, whichever source they come from and
whatever the session was asked before.  The one exception are the figures of a
block that understates them.
-/

namespace Concordance

namespace Session

variable {session : Session} {node : Node} {mode : Completion} {figures : Statistics}
  {after : Session}

/-- What sessions keep to, whatever they are asked. -/
structure Orderly (session : Session) : Prop where
  registry : ∃ overrides, session.registry = Registry.withOverrides overrides
  counts : ∀ table, session.counts = some table → CountTable.Consistent table.entries
  sample : (session.sample.getD []).Pairwise fun first second => first < second

theorem Orderly.builtIn (orderly : session.Orderly) : session.registry.BuiltIn := by
  obtain ⟨overrides, same⟩ := orderly.registry
  rw [same]
  exact Registry.withOverrides_builtIn overrides

/-- Whether the figures of a node are those of a block that understates them. -/
def Understates (session : Session) (node : Node) (figures : Statistics) : Prop :=
  (∃ withExtents, session.registry.resolve? node.operator = some (.source withExtents)) ∧
    session.index.Understates (Key.ofText node.leafKey) figures

/-! ## The sources of an answer -/

/-- The figures that a table of counts has for a node. -/
theorem knownStatistics?_listed (orderly : session.Orderly) {cursor : Cursor}
    (unknown : cursor.statistics? session.collection = none)
    (known : session.knownStatistics? node cursor = some figures) :
    figures.isConsistent = true := by
  unfold knownStatistics? at known
  rw [unknown] at known
  dsimp only at known
  split at known
  · obtain ⟨entry, held, rfl⟩ := Option.map_eq_some_iff.mp known
    obtain ⟨table, present, found⟩ := Option.bind_eq_some_iff.mp held
    exact orderly.counts table present _ entry found
  · cases known

/-- The figures that are known without a scan. -/
theorem knownStatistics?_consistent (orderly : session.Orderly) {bench : Workbench}
    {handle : Handle}
    (built : (session.compiler false).build node ⟨Forest.empty, ScoringContext.new⟩ =
      .ok handle bench)
    (known : session.knownStatistics? node (bench.forest.cursor handle) = some figures) :
    figures.isConsistent = true ∨ session.Understates node figures := by
  cases here : bench.forest.cursor handle with
  | null key =>
      rw [here] at known
      cases known
      exact .inl rfl
  | leaf leaf =>
      obtain ⟨withExtents, block, resolved, held, opened⟩ :=
        Compiler.build_leaf orderly.builtIn built here
      rw [here] at known
      cases known
      rcases Leaf.statistics_consistent held opened session.collection with consistent | understates
      · exact .inl consistent
      · exact .inr ⟨⟨withExtents, resolved⟩, understates.stored, understates.documents,
          understates.frequency, understates.maximum⟩
  | composite composite =>
      rw [here] at known
      exact .inl (knownStatistics?_listed orderly rfl known)
  | feature wrapper =>
      rw [here] at known
      exact .inl (knownStatistics?_listed orderly rfl known)

theorem collect_occurring (orderly : session.Orderly) {law : Leaf.Law} {forest : Forest}
    {offered : Capabilities} {weight start : Nat} {handle : Handle}
    (poised : Forest.Poised law forest offered weight start handle 0)
    (counts : offered.count = true) (light : weight < 4294967296) (mode : Completion) :
    (session.collect mode handle).Ends forest (fun found _ => Statistics.Occurring found)
      law.Fails := by
  cases mode with
  | full => exact Forest.scan_occurring poised counts light
  | onepass => exact Forest.scan_occurring poised counts light
  | sampled => exact Forest.sampledScan_occurring poised counts light orderly.sample

/-- The figures that a scan of a fresh cursor finds. -/
theorem scanned_consistent (orderly : session.Orderly)
    (narrow : node.bulk session.registry session.index < 4294967296) {bench : Workbench}
    {handle : Handle}
    (built : (session.compiler false).build node ⟨Forest.empty, ScoringContext.new⟩ =
      .ok handle bench)
    (counting : (bench.forest.capabilities handle).count = true)
    {found : List (DocId × Nat)} {rest : Forest}
    (collected : session.collect mode handle bench.forest = .ok found rest) :
    (Statistics.of node.signature session.collection found).isConsistent = true := by
  have plants := @Compiler.build_plants (session.compiler false) _ _ session.index.supplies_any
    orderly.builtIn node ⟨Forest.empty, ScoringContext.new⟩
  obtain ⟨offer, offered, planted⟩ := plants.of_ok built
  have counts : offer.capabilities.count = true := by
    rw [← planted.poised.whole.capabilities]
    exact counting
  have light := Nat.lt_of_le_of_lt (Node.offer_weight node offered) narrow
  exact Statistics.of_isConsistent
    ((collect_occurring orderly planted.poised counts light mode).of_ok collected)

/-! ## Sessions that come about -/

/-- Annotating a node changes the cache of a session and nothing else. -/
theorem annotate_frame (node : Node) (session : Session) : ∃ cache,
    (annotate node).endState session = { session with cache := cache } := by
  unfold annotate
  rw [Step.endState_bind (Step.get_run session)]
  dsimp only
  by_cases other : session.registry.implementationId? node.operator ≠ some "feature"
  · rw [if_pos other]
    exact ⟨session.cache, rfl⟩
  · rw [if_neg other]
    cases node.children with
    | nil => exact ⟨session.cache, rfl⟩
    | cons child children =>
        dsimp only
        rw [Step.endState_bind_pure]
        exact statisticsWith_frame child session.config.completion session

/-- The sessions that come about: each is started on some index, and then it is asked and
changed. -/
inductive Reached : Session → Prop where
  | started {index : Index} {config : Config} {file : String → StoredFile} {session : Session}
      (run : start index config file = .ok session) : Reached session
  | candidates {session : Session} (reached : Reached session) (docs : List DocId) :
      Reached (session.setCandidates docs)
  | sampled {session : Session} (reached : Reached session) (docs : List DocId) :
      Reached (session.setSample docs)
  | overridden {session : Session} (reached : Reached session) (operator id : String) :
      Reached { session with registry := session.registry.override operator id }
  | consulted {session : Session} (reached : Reached session) (cache : OccurrenceCache) :
      Reached { session with cache := cache }
  | asked {session : Session} (reached : Reached session) (node : Node) (mode : Completion) :
      Reached ((statisticsWith node mode).endState session)
  | annotated {session : Session} (reached : Reached session) (node : Node) :
      Reached ((annotate node).endState session)

theorem start_orderly {index : Index} {config : Config} {file : String → StoredFile}
    (run : start index config file = .ok session) : session.Orderly := by
  obtain ⟨counts, loaded, same⟩ := Step.ok_of_bind run
  cases same
  refine ⟨⟨config.operators, rfl⟩, ?_, .nil⟩
  rintro table rfl
  cases named : config.countsFile with
  | none =>
      rw [named] at loaded
      cases loaded
  | some name =>
      rw [named] at loaded
      obtain ⟨held, read, same⟩ := Step.ok_of_bind loaded
      cases same
      exact CountTable.load_consistent read

theorem Reached.orderly (reached : session.Reached) : session.Orderly := by
  induction reached with
  | started run => exact start_orderly run
  | candidates _ docs orderly => exact ⟨orderly.registry, orderly.counts, orderly.sample⟩
  | sampled _ docs orderly =>
      exact ⟨orderly.registry, orderly.counts, ascendingDocs_ascending docs⟩
  | overridden _ operator id orderly =>
      obtain ⟨overrides, same⟩ := orderly.registry
      refine ⟨⟨overrides.insert operator id, ?_⟩, orderly.counts, orderly.sample⟩
      dsimp only
      rw [same]
      rfl
  | consulted _ cache orderly => exact ⟨orderly.registry, orderly.counts, orderly.sample⟩
  | @asked session _ node mode orderly =>
      obtain ⟨cache, same⟩ := statisticsWith_frame node mode session
      rw [same]
      exact ⟨orderly.registry, orderly.counts, orderly.sample⟩
  | @annotated session _ node orderly =>
      obtain ⟨cache, same⟩ := annotate_frame node session
      rw [same]
      exact ⟨orderly.registry, orderly.counts, orderly.sample⟩

/-! ## Every answer -/

/-- The answer of an orderly session. -/
theorem Orderly.answers (orderly : session.Orderly)
    (narrow : node.bulk session.registry session.index < 4294967296)
    (found : statisticsWith node mode session = .ok figures after) :
    figures.isConsistent = true ∨ session.Understates node figures := by
  have answers := statisticsWith_answers session node mode
  rw [found] at answers
  cases answers with
  | known built known => exact knownStatistics?_consistent orderly built known
  | scanned built unknown counting collected =>
      exact .inl (scanned_consistent orderly narrow built counting collected)

/-- The statistics that a session returns are consistent, unless they are those of a
block that understates them. -/
theorem statisticsWith_consistent (reached : session.Reached)
    (narrow : node.bulk session.registry session.index < 4294967296)
    (found : statisticsWith node mode session = .ok figures after) :
    figures.isConsistent = true ↔ ¬session.Understates node figures := by
  constructor
  · exact fun consistent understates => understates.2.not_isConsistent consistent
  · exact (reached.orderly.answers narrow found).resolve_right

end Session

namespace Example

/-- A session on the index of the first query. -/
def session : Session :=
  ⟨index, Config.new, Registry.withOverrides TextMap.empty, Collection.empty, none, none, none,
    OccurrenceCache.empty⟩

/-- A union over two keys. -/
def either : Node := ⟨"bor", TextMap.empty, [Node.term "a", Node.term "b"]⟩

theorem session_started : Session.start index Config.new (fun name => ⟨name, none⟩) = .ok session :=
  rfl

theorem either_answered : Step.evaluate (do
    let _ ← Session.statisticsWith either .full
    pure true) session = .ok true := by
  cbv

end Example

namespace Session

/-- A union is scanned for. -/
theorem statisticsWith_consistent_union :
    Example.session.Reached ∧
      Example.either.bulk Example.session.registry Example.session.index < 4294967296 ∧
      ∃ figures after, statisticsWith Example.either .full Example.session = .ok figures after ∧
        (figures.isConsistent = true ↔ ¬Example.session.Understates Example.either figures) := by
  have reached : Example.session.Reached := .started Example.session_started
  have narrow : Example.either.bulk Example.session.registry Example.session.index < 4294967296 :=
    of_decide_eq_true (by cbv)
  obtain ⟨_, run⟩ := Step.evaluate_eq_ok Example.either_answered
  obtain ⟨figures, after, found, _⟩ := Step.bind_eq_ok run
  exact ⟨reached, narrow, figures, after, found, statisticsWith_consistent reached narrow found⟩

end Session

namespace Example

/-- The block of one document whose head says that its greatest count is zero. -/
def understated : List UInt8 := [1, 1, 0, 1, 0, 0, 1, 1, 2, 1, 1, 0, 1]

/-- A dictionary of one key, whose block is the first. -/
def onlyKey : Index.Dictionary := ⟨[([97], 0)]⟩

/-- The bytes of an index file with that block. -/
def understatedFile : StoredFile :=
  ⟨"index", some ((Index.Header.ofRegions understated onlyKey.encode 1 Collection.empty).encode ++
    understated ++ onlyKey.encode)⟩

def understatedIndex : Index :=
  ⟨"index", Index.Header.ofRegions understated onlyKey.encode 1 Collection.empty, understated,
    onlyKey⟩

theorem understatedFile_opens :
    Index.open? understatedFile true = .ok understatedIndex := by
  have decoded : Index.KeyFormat.plain.decode onlyKey.encode = .ok onlyKey := by rfl
  exact Index.open?_regions decoded (by decide) (by decide) "index" true

end Example

namespace Session

/-- A file whose only block understates its figures is opened and verified, and its
figures are returned. -/
theorem statisticsWith_understated :
    ¬∀ (indexFile : StoredFile) (config : Config) (file : String → StoredFile)
      (session after : Session) (node : Node) (mode : Completion) (figures : Statistics),
      open? indexFile config file = .ok session →
      statisticsWith node mode session = .ok figures after → figures.isConsistent = true := by
  intro consistent
  have started : start Example.understatedIndex Config.new (fun name => ⟨name, none⟩) = .ok
      ⟨Example.understatedIndex, Config.new, Registry.withOverrides TextMap.empty,
        Collection.empty, none, none, none, OccurrenceCache.empty⟩ := rfl
  have answers : Step.evaluate (do
      let figures ← statisticsWith (Node.term "a") .full
      pure figures.isConsistent) (⟨Example.understatedIndex, Config.new,
        Registry.withOverrides TextMap.empty, Collection.empty, none, none, none,
        OccurrenceCache.empty⟩ : Session) = .ok false := by cbv
  obtain ⟨_, run⟩ := Step.evaluate_eq_ok answers
  obtain ⟨figures, after, found, shown⟩ := Step.bind_eq_ok run
  have opened : open? Example.understatedFile Config.new (fun name => ⟨name, none⟩) = .ok
      ⟨Example.understatedIndex, Config.new, Registry.withOverrides TextMap.empty,
        Collection.empty, none, none, none, OccurrenceCache.empty⟩ := by
    rw [open?, Example.understatedFile_opens]
    exact started
  have same := consistent _ _ _ _ _ _ _ _ opened found
  injection shown with shown
  rw [same] at shown
  cases shown

end Session

end Concordance
