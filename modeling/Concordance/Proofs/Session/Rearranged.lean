import Concordance.Proofs.Compile.Rearranged
import Concordance.Proofs.Session.Consistency

/-!
# Statistics for children in another order

The statistics of an unordered window are those of its children in any other order, under
another name, as long as nothing is tied in any document and a table of counts has the same
figures under both names.
-/

namespace Concordance

/-! ## Figures under another name -/

namespace Statistics

/-- The figures of a node that has another name. -/
def under (name : String) (figures : Statistics) : Statistics := { figures with node := name }

theorem addMatch_under (name : String) (figures : Statistics) (count : Nat) :
    (figures.under name).addMatch count = (figures.addMatch count).map (under name) := by
  unfold addMatch
  by_cases bounds : figures.frequency + count < counterLimit ∧
      figures.documents + 1 < counterLimit
  · rw [if_pos bounds]
    exact if_pos bounds
  · rw [if_neg bounds]
    exact if_neg bounds

theorem addMatches_under (name : String) (figures : Statistics) (pairs : List (DocId × Nat)) :
    (figures.under name).addMatches pairs = (figures.addMatches pairs).map (under name) := by
  induction pairs generalizing figures with
  | nil => rfl
  | cons pair pairs induction =>
      unfold addMatches at induction ⊢
      rw [List.foldlM_cons, List.foldlM_cons, addMatch_under]
      cases figures.addMatch pair.2 with
      | error cause => rfl
      | ok more => exact induction more

end Statistics

namespace Session

variable {session : Session} {node other : Node} {mode : Completion}

/-! ## Scanning two cursors -/

/-- Cursors that match alike are scanned alike. -/
theorem collect_alike (orderly : session.Orderly) {forest otherForest : Forest}
    {meaning rival : Meaning} {start otherStart : Nat} {handle otherHandle : Handle}
    (tracks : Forest.Tracks forest meaning start handle 0)
    (tracksOther : Forest.Tracks otherForest rival otherStart otherHandle 0)
    (counts : meaning.capabilities.count = true) (countsOther : rival.capabilities.count = true)
    (same : meaning.found = rival.found) (mode : Completion) :
    ∃ pairs rest otherRest, session.collect mode handle forest = .ok pairs rest ∧
      session.collect mode otherHandle otherForest = .ok pairs otherRest := by
  obtain ⟨_, rest, listed, scanned⟩ := Forest.tracks_follows.scan_lists tracks counts
  obtain ⟨_, otherRest, listedOther, scannedOther⟩ :=
    Forest.tracks_follows.scan_lists tracksOther countsOther
  rw [← same] at listedOther
  cases listed.unique listedOther
  cases mode with
  | full => exact ⟨_, rest, otherRest, scanned, scannedOther⟩
  | onepass => exact ⟨_, rest, otherRest, scanned, scannedOther⟩
  | sampled =>
      obtain ⟨rest, visited⟩ :=
        Forest.tracks_follows.sampledScan_sampled tracks counts orderly.sample
      obtain ⟨otherRest, visitedOther⟩ :=
        Forest.tracks_follows.sampledScan_sampled tracksOther countsOther orderly.sample
      rw [← same] at visitedOther
      exact ⟨_, rest, otherRest, visited, visitedOther⟩

theorem scanCursor_evaluate {name : String} {forest rest : Forest} {handle : Handle}
    {pairs : List (DocId × Nat)} (collected : session.collect mode handle forest = .ok pairs rest) :
    (session.scanCursor name mode handle).evaluate forest =
      ((Statistics.new name session.collection).addMatches pairs).map fun figures =>
        (figures, session.kept? mode pairs) := by
  unfold Step.evaluate scanCursor
  rw [Step.bind_ok _ collected]
  cases added : (Statistics.new name session.collection).addMatches pairs with
  | error cause => rfl
  | ok figures =>
      rw [Step.bind_ok _ (Step.ofExcept_run rfl rest)]
      cases mode <;> rfl

/-- What is answered after a scan. -/
theorem scanStatistics_evaluate {forest rest : Forest} {handle : Handle}
    {pairs : List (DocId × Nat)} (collected : session.collect mode handle forest = .ok pairs rest) :
    (scanStatistics node mode forest handle).evaluate session = (do
      session.requireDocs mode
      (Statistics.new node.signature session.collection).addMatches pairs) := by
  unfold Step.evaluate scanStatistics
  rw [Step.bind_ok _ (Step.get_run session), scanCursor_evaluate collected]
  cases session.requireDocs mode with
  | error cause => rfl
  | ok =>
      rw [Step.bind_ok _ (Step.ofExcept_run rfl session), Step.ok_bind]
      cases (Statistics.new node.signature session.collection).addMatches pairs with
      | error cause => rfl
      | ok figures =>
          dsimp only [Except.map]
          rw [Step.bind_ok _ (Step.ofExcept_run rfl session)]
          cases session.kept? mode pairs <;> rfl

/-- What is answered for a node that counts: what is known, or else what a scan finds. -/
theorem statisticsWith_evaluate {bench : Workbench} {rest : Forest} {handle : Handle}
    {pairs : List (DocId × Nat)}
    (built : (session.compiler false).build node ⟨Forest.empty, ScoringContext.new⟩ =
      .ok handle bench)
    (counts : (bench.forest.capabilities handle).count = true)
    (collected : session.collect mode handle bench.forest = .ok pairs rest) :
    (statisticsWith node mode).evaluate session =
      match session.knownStatistics? node (bench.forest.cursor handle) with
      | some figures => .ok figures
      | none => (do
        session.requireDocs mode
        (Statistics.new node.signature session.collection).addMatches pairs) := by
  cases known : session.knownStatistics? node (bench.forest.cursor handle) with
  | some figures =>
      have run : statisticsWith node mode session = .ok figures session := by
        unfold statisticsWith
        rw [Step.bind_ok _ (Step.get_run session), built]
        dsimp only
        rw [known]
        rfl
      exact Step.evaluate_ok run
  | none =>
      rw [Step.evaluate, statisticsWith_eq built known counts]
      exact scanStatistics_evaluate collected

/-! ## Asking for both -/

/-- What a table of counts has for two nodes is the same but for their names. -/
def ListedAlike (session : Session) (node other : Node) : Prop :=
  ∀ table, session.counts = some table → CountTable.isWindowOperator node.operator = true →
    (table.get? node.signature).map (Statistics.under other.signature) =
      (table.get? other.signature).map (Statistics.under other.signature)

theorem knownStatistics?_alike (operator : other.operator = node.operator)
    (listed : session.ListedAlike node other) {cursor otherCursor : Cursor}
    (scanning : cursor.capabilities.aggregate = false)
    (scanningOther : otherCursor.capabilities.aggregate = false) :
    session.knownStatistics? other otherCursor =
      (session.knownStatistics? node cursor).map (Statistics.under other.signature) := by
  unfold knownStatistics?
  rw [Cursor.statistics?_eq_none scanning, Cursor.statistics?_eq_none scanningOther, operator]
  dsimp only
  by_cases window : CountTable.isWindowOperator node.operator = true
  · rw [if_pos window, if_pos window]
    cases held : session.counts with
    | none => rfl
    | some table =>
        rw [Option.bind_some, Option.bind_some, Option.map_map]
        exact (listed table held window).symm
  · rw [if_neg window, if_neg window]
    rfl

/-- Where nothing is tied the statistics of a window are the same for any order of its
children. -/
theorem statisticsWith_rearranged (orderly : session.Orderly) {interval : Nat}
    {calls : List Index.Call} (produced : Index.Produced interval calls session.index)
    (rearranged : node.Rearranged other)
    (resolved : session.registry.resolve? node.operator = some (.window .unordered))
    (countable : ∀ window ∈ [node, other], window.Countable session.registry Customs.nothing
      (Index.Ledger.ofCalls calls).contents)
    {bench : Workbench} {handle : Handle}
    (built : (session.compiler false).build node ⟨Forest.empty, ScoringContext.new⟩ =
      .ok handle bench)
    (untied : ∀ doc, Combination.Untied (node.children.map (Node.meaning session.registry
      Customs.nothing (Index.Ledger.ofCalls calls).contents)) doc)
    (listed : session.ListedAlike node other) (mode : Completion) :
    (statisticsWith other mode).evaluate session =
      ((statisticsWith node mode).evaluate session).map (Statistics.under other.signature) := by
  have described := orderly.builtIn.described Customs.nothing
  have countableNode := countable node List.mem_cons_self
  have countableOther := countable other (List.mem_cons_of_mem _ List.mem_cons_self)
  have unshared : (session.compiler false).shareNodes = true → False := Bool.false_ne_true
  obtain ⟨otherHandle, otherBench, builtOther⟩ := Compiler.build_rearranged produced
    orderly.builtIn resolved rearranged (fun shared => (unshared shared).elim) built
    ⟨Forest.empty, ScoringContext.new⟩
  have children := Compiler.window_children produced.serves described countableNode
    (fun shared => (unshared shared).elim) resolved built
  have tracks :=
    (Compiler.build_grown produced.serves described rfl node countableNode built).tracks
  have tracksOther :=
    (Compiler.build_grown produced.serves described rfl other countableOther builtOther).tracks
  have offers := tracks.capabilities.trans (Node.unordered_capabilities resolved)
  have offersOther := tracksOther.capabilities.trans
    (Node.unordered_capabilities (rearranged.operator ▸ resolved))
  have counts := congrArg Capabilities.count offers
  have countsOther := congrArg Capabilities.count offersOther
  have known := knownStatistics?_alike rearranged.operator listed
    (congrArg Capabilities.aggregate offers) (congrArg Capabilities.aggregate offersOther)
  obtain ⟨pairs, rest, otherRest, collected, collectedOther⟩ := collect_alike orderly tracks
    tracksOther (tracks.capabilities ▸ counts) (tracksOther.capabilities ▸ countsOther)
    (rearranged.found_eq resolved children untied) mode
  rw [statisticsWith_evaluate built counts collected,
    statisticsWith_evaluate builtOther countsOther collectedOther]
  rw [known]
  cases session.knownStatistics? node (bench.forest.cursor handle) with
  | some figures => rfl
  | none =>
      dsimp only [Option.map_none]
      cases session.requireDocs mode with
      | error cause => rfl
      | ok =>
          exact Statistics.addMatches_under other.signature
            (Statistics.new node.signature session.collection) pairs

/-- Searches over lists, what compiled windows show, and statistics compare with those for any
other order of the lists and of the children. -/
theorem rearranged_agree {interval : Nat} {calls : List Index.Call} (reached : session.Reached)
    (produced : Index.Produced interval calls session.index) :
    (∀ (width : Nat) (lists others : List (List Extent)), lists ≠ [] → lists.Perm others →
      (∀ list ∈ lists, Extent.WellOrdered list) →
      ∃ windows rivals, Window.unordered width lists = .ok windows ∧
        Window.unordered width others = .ok rivals ∧ Window.Alike lists windows rivals) ∧
    ∀ node other : Node,
      let means := Node.meaning session.registry Customs.nothing
        (Index.Ledger.ofCalls calls).contents
      node.Rearranged other →
      session.registry.resolve? node.operator = some (.window .unordered) →
      (∀ window ∈ [node, other], window.Countable session.registry Customs.nothing
        (Index.Ledger.ofCalls calls).contents) →
      (∀ (shareNodes : Bool) (arena otherArena kept : Arena) (bench otherBench after : Workbench)
        (handle : Handle),
        (shareNodes = true → node.Telling means ∧
          (∀ first ∈ node.children, ∀ second ∈ node.children,
            first.text = second.text → first = second) ∧
          arena.get? node.text = none ∧ otherArena.get? other.text = none) →
        (session.compiler shareNodes).compile node arena bench = .ok (handle, kept) after →
        ∃ otherHandle otherKept otherAfter,
          (session.compiler shareNodes).compile other otherArena otherBench =
            .ok (otherHandle, otherKept) otherAfter ∧
          ∃ shown rivals rest otherRest,
            Forest.drain handle none after.forest = .ok shown rest ∧
            Forest.drain otherHandle none otherAfter.forest = .ok rivals otherRest ∧
            Combination.ShownAlike (node.children.map means) shown rivals) ∧
      ((∀ doc, Combination.Untied (node.children.map means) doc) →
        session.ListedAlike node other → ∀ mode figures,
        (statisticsWith node mode).evaluate session = .ok figures →
        (statisticsWith other mode).evaluate session =
          .ok (figures.under other.signature)) := by
  have orderly := reached.orderly
  constructor
  · intro width lists others present perm wellOrdered
    exact Window.unordered_alike width present perm wellOrdered
  · intro node other means rearranged resolved countable
    constructor
    · intro shareNodes arena otherArena kept bench otherBench after handle sharing compiled
      exact @Compiler.compile_rearranged (session.compiler shareNodes) _ _ _ _ produced
        orderly.builtIn resolved rearranged countable _ _ _ sharing _ _ otherBench _ compiled
    · intro untied listed mode figures found
      obtain ⟨after, run⟩ := Step.evaluate_eq_ok found
      have answers := statisticsWith_answers session node mode
      rw [run] at answers
      have built : ∃ handle bench, (session.compiler false).build node
          ⟨Forest.empty, ScoringContext.new⟩ = .ok handle bench := by
        cases answers with
        | known built => exact ⟨_, _, built⟩
        | scanned built => exact ⟨_, _, built⟩
      obtain ⟨handle, bench, built⟩ := built
      rw [statisticsWith_rearranged orderly produced rearranged resolved countable built untied
        listed mode, found]
      rfl

end Session

namespace Example

/-- The two keys the other way round. -/
def nearSwapped : Node := ⟨"uw", near.parameters, [Node.term "b", Node.term "a"]⟩

theorem near_rearranged : near.Rearranged nearSwapped := ⟨rfl, rfl, .swap _ _ _⟩

theorem nearSwapped_countable : nearSwapped.Countable registry Customs.nothing
    (Index.Ledger.ofCalls nestedCalls).contents := nested_countable_of_perm rfl (.swap _ _ _)

/-- The extents of the two keys never start together. -/
theorem near_untied (doc : DocId) : Combination.Untied (near.children.map
    (Node.meaning registry Customs.nothing (Index.Ledger.ofCalls nestedCalls).contents)) doc := by
  rw [← Node.meanings_eq_map, near_meanings]
  intro founds all
  cases all with
  | cons here later =>
      cases later with
      | cons there rest =>
          cases rest
          obtain ⟨one, isOne, rfl, rfl⟩ := Meaning.source_eq_some here
          obtain ⟨two, isTwo, same, rfl⟩ := Meaning.source_eq_some there
          simp only [List.mem_cons, List.not_mem_nil, or_false] at isOne isTwo
          refine Window.untied_of_apart ?_
          rcases isOne with rfl | rfl <;> rcases isTwo with rfl | rfl <;>
            decide

/-- A session on the index of that query. -/
def nearSession : Session :=
  ⟨nestedIndex, { Config.new with operators := TextMap.empty.insert "both" "conjunction" },
    registry, Collection.empty, none, none, none, OccurrenceCache.empty⟩

theorem nearSession_started : Session.start nestedIndex nearSession.config
    (fun name => ⟨name, none⟩) = .ok nearSession := rfl

end Example

namespace Session

/-- Two keys in either order stand near enough in one document. -/
theorem rearranged_agree_near :
    let session := Example.nearSession
    let first : List Extent := [.ofNats 0 1, .ofNats 6 7]
    let second : List Extent := [.ofNats 2 3, .ofNats 4 5]
    session.Reached ∧ Index.Produced 1 Example.nestedCalls session.index ∧
      Example.near.Rearranged Example.nearSwapped ∧
      session.ListedAlike Example.near Example.nearSwapped ∧
      (∃ windows, Window.unordered 5 [first, second] = .ok windows ∧
        Window.unordered 5 [second, first] = .ok windows) ∧
      (∃ handle kept after otherHandle otherKept otherAfter,
        (session.compiler false).compile Example.near Arena.empty
          ⟨Forest.empty, ScoringContext.new⟩ = .ok (handle, kept) after ∧
        (session.compiler false).compile Example.nearSwapped Arena.empty
          ⟨Forest.empty, ScoringContext.new⟩ = .ok (otherHandle, otherKept) otherAfter ∧
        ∃ shown rest otherRest, Forest.drain handle none after.forest = .ok shown rest ∧
          Forest.drain otherHandle none otherAfter.forest = .ok shown otherRest) ∧
      (statisticsWith Example.nearSwapped .full).evaluate session =
        .ok ⟨Example.nearSwapped.signature, 1, 1, 1, Collection.empty⟩ := by
  intro session first second
  have reached : session.Reached := .started Example.nearSession_started
  have listed : session.ListedAlike Example.near Example.nearSwapped := by
    intro table held
    cases held
  have agree := rearranged_agree reached Example.nested_produced
  obtain ⟨drains, answers⟩ := agree.2 Example.near Example.nearSwapped Example.near_rearranged rfl
    (List.forall_mem_cons.mpr ⟨Example.near_countable,
      List.forall_mem_singleton.mpr Example.nearSwapped_countable⟩)
  refine ⟨reached, Example.nested_produced, Example.near_rearranged, listed, ?_, ?_, ?_⟩
  · obtain ⟨windows, rivals, found, foundOther, alike⟩ := agree.1 5 [first, second]
      [second, first] (List.cons_ne_nil _ _) (.swap _ _ _) (by decide)
    have same := alike.all (Window.untied_of_apart (by decide))
    exact ⟨windows, found, same ▸ foundOther⟩
  · have compiles : Step.evaluate (do
        let _ ← (session.compiler false).compile Example.near Arena.empty
        pure true) ⟨Forest.empty, ScoringContext.new⟩ = .ok true := by cbv
    obtain ⟨final, run⟩ := Step.evaluate_eq_ok compiles
    obtain ⟨result, after, compiled, _⟩ := Step.bind_eq_ok run
    obtain ⟨otherHandle, otherKept, otherAfter, compiledOther, shown, rivals, rest, otherRest,
      drained, drainedOther, alike⟩ := drains false Arena.empty Arena.empty _ _
        ⟨Forest.empty, ScoringContext.new⟩ _ _ (fun shared => by cases shared) compiled
    have same := alike.all Example.near_untied
    exact ⟨result.1, result.2, after, otherHandle, otherKept, otherAfter, compiled, compiledOther,
      shown, rest, otherRest, drained, same ▸ drainedOther⟩
  · have answered : (statisticsWith Example.near .full).evaluate session =
        .ok ⟨Example.near.signature, 1, 1, 1, Collection.empty⟩ := by cbv
    exact answers Example.near_untied listed .full _ answered

end Session

end Concordance
