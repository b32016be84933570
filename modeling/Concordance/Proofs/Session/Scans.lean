import Concordance.Proofs.Compile.Evaluation
import Concordance.Proofs.Session.Figures
import Concordance.Session.Basic

/-!
# Statistics by scanning

The statistics of a node that have to be scanned for are the figures of its
matches.  Which scan is made matters only for a sample: it gives the figures of
those matches whose documents are in the sample.
-/

namespace Concordance

/-! ## Samples -/

theorem mem_ascendingDocs {doc : DocId} {docs : List DocId} :
    doc ∈ ascendingDocs docs ↔ doc ∈ docs := by
  rw [ascendingDocs, mem_eraseReps, List.mem_mergeSort]

/-- A sample is visited in ascending order, each document once. -/
theorem ascendingDocs_ascending (docs : List DocId) :
    (ascendingDocs docs).Pairwise fun first second => first < second := by
  have sorted : (docs.mergeSort fun first second => decide (first ≤ second)).Pairwise
      fun first second => decide (first ≤ second) = true := by
    refine List.pairwise_mergeSort ?_ ?_ docs
    · intro first second third
      simp only [decide_eq_true_eq, DocId.le_iff]
      omega
    · intro first second
      simp only [Bool.or_eq_true, decide_eq_true_eq, DocId.le_iff]
      omega
  have antisymmetric : ∀ first second : DocId, decide (first ≤ second) = true →
      decide (second ≤ first) = true → first = second := by
    intro first second below above
    exact DocId.eq_of_val_eq
      (Nat.le_antisymm (of_decide_eq_true below) (of_decide_eq_true above))
  apply (pairwise_eraseReps antisymmetric sorted).imp
  intro first second ⟨below, different⟩
  exact Nat.lt_of_le_of_ne (of_decide_eq_true below) fun same =>
    different (DocId.eq_of_val_eq same)

theorem Cursor.statistics?_eq_none {cursor : Cursor} (scanning : cursor.capabilities.aggregate = false)
    (collection : Collection) : cursor.statistics? collection = none := by
  cases cursor with
  | null key => cases scanning
  | leaf source =>
      have offers : source.capabilities.aggregate = true := by
        rw [Leaf.capabilities]
        split <;> rfl
      cases offers.symm.trans scanning
  | composite composite => rfl
  | feature wrapper => rfl

/-! ## A constructor from outside -/

namespace Example

/-- Hand on the last of some children. -/
def last (request : BuildRequest) : Step Forest Handle :=
  match request.children.getLast? with
  | some child => pure child
  | none => Forest.add (.null request.signature)

def customs : Customs := fun _ _ _ children => children.getLastD .absent

theorem customs_describes : customs.Describes last := by
  intro _ contents request children before middle after handle meanings starts _ grown _ built
  have meant := congrArg (fun all => all.getLastD Meaning.absent) grown.meant
  unfold last at built
  cases here : request.children.getLast? with
  | none =>
      rw [here] at built
      cases built
      have same : customs last contents request.node children = .absent := by
        rw [List.getLast?_eq_none_iff.mp here] at meant
        exact meant.symm
      rw [same]
      exact Forest.Grown.of_kept grown.kept (Forest.grown_null middle _)
  | some child =>
      rw [here] at built
      cases built
      have member : handle ∈ request.children := List.mem_of_getLast? here
      have same : customs last contents request.node children = meanings handle := by
        apply meant.symm.trans
        simp [List.getLastD_eq_getLast?, here]
      rw [same]
      exact ⟨(grown.tracks handle member).widen (grown.behind handle member), grown.kept⟩

def extended : Registry := registry.register "last" (.custom last)

theorem extended_described : extended.Described customs := by
  intro operator build resolved
  obtain ⟨id, _, held⟩ := Option.bind_eq_some_iff.mp resolved
  rw [extended, Registry.register, TextMap.get?_insert] at held
  by_cases same : id = "last"
  · rw [if_pos same] at held
    cases held
    exact customs_describes
  · rw [if_neg same] at held
    have known := TextMap.mem_of_get?_ofList held
    simp [Registry.defaultImplementations] at known

/-- The union of the first query, one part of it behind that constructor. -/
def wrapped : Node :=
  ⟨"bor", TextMap.empty,
    [⟨"counts", TextMap.empty.insert Node.defaultName (.string "a"), []⟩,
      ⟨"last", TextMap.empty,
        [Node.term "b", ⟨"both", TextMap.empty, [Node.term "a", Node.term "b"]⟩]⟩]⟩

theorem wrapped_countable :
    wrapped.Countable extended customs (Index.Ledger.ofCalls calls).contents := by
  have serves := produced.serves
  have leaf : ∀ key, (Node.term key).Countable extended customs
      (Index.Ledger.ofCalls calls).contents := fun key => Node.leaf_countable serves rfl
  have both : Node.Countable extended customs (Index.Ledger.ofCalls calls).contents
      ⟨"both", TextMap.empty, [Node.term "a", Node.term "b"]⟩ :=
    Node.combination_countable rfl (.inl rfl) (by simp [leaf])
  have handed : Node.Countable extended customs (Index.Ledger.ofCalls calls).contents
      ⟨"last", TextMap.empty,
        [Node.term "b", ⟨"both", TextMap.empty, [Node.term "a", Node.term "b"]⟩]⟩ := by
    have resolved : extended.resolve? "last" = some (.custom last) := rfl
    refine .intro _ (by simp [leaf, both]) ?_
    rw [Node.meaning_eq customs _ resolved]
    cases both with
    | intro _ _ here => exact here
  refine Node.combination_countable rfl (.inr (.inl rfl)) ?_
  exact List.forall_mem_cons.mpr ⟨Node.leaf_countable serves rfl, by simp [handed]⟩

end Example

namespace Session

variable {session : Session} {node : Node}

theorem knownStatistics?_eq_none {cursor : Cursor} (scanning : cursor.capabilities.aggregate = false)
    (unlisted : ∀ table, session.counts = some table →
      CountTable.isWindowOperator node.operator = true → table.get? node.signature = none) :
    session.knownStatistics? node cursor = none := by
  rw [knownStatistics?, Cursor.statistics?_eq_none scanning]
  dsimp only
  split
  · rename_i window
    cases held : session.counts with
    | none => rfl
    | some table =>
        rw [Option.bind_some, unlisted table held window]
        rfl
  · rfl

/-! ## Matches with their counts -/

theorem occurring_of_listed {meaning : Meaning} {matched : List Match} (sound : meaning.Sound)
    (counts : meaning.capabilities.count = true) (listed : Listed meaning.found 0 matched) :
    Statistics.Occurring (matched.map Match.counted) := by
  intro pair member
  obtain ⟨found, inside, rfl⟩ := List.mem_map.mp member
  obtain ⟨_, known⟩ := (listed.mem_iff found).mp inside
  exact (sound.sound found.doc found known).occurs counts

/-- A sample of any documents finds the matches that are among them. -/
theorem sampled_ascendingDocs {meaning : Meaning} {matched : List Match} (sound : meaning.Sound)
    (listed : Listed meaning.found 0 matched) (docs : List DocId) :
    (sampled meaning.found (ascendingDocs docs)).map Match.counted =
      (matched.map Match.counted).filter fun pair => docs.contains pair.1 := by
  have same : ∀ found ∈ matched, (ascendingDocs docs).contains found.doc =
      docs.contains found.doc := by
    intro found _
    rw [Bool.eq_iff_iff, List.contains_iff_mem, List.contains_iff_mem, mem_ascendingDocs]
  rw [listed.sampled_eq sound.place (ascendingDocs_ascending docs), List.filter_congr same,
    List.filter_map]
  rfl

theorem shown_counted {offered : Capabilities} (counts : offered.count = true)
    (matched : List Match) :
    (matched.map (Forest.Shown.of offered)).map (fun item => (item.doc, item.count)) =
      (matched.map Match.counted).map fun pair => (pair.1, some pair.2) := by
  rw [List.map_map, List.map_map]
  apply List.map_congr_left
  intro found _
  simp only [Function.comp_apply, Forest.Shown.of, Match.counted, counts, if_true]

/-! ## Scanning -/

/-- A scan whose matches the counters hold. -/
theorem scanStatistics_of {mode : Completion} {forest middle : Forest} {handle : Handle}
    {matched : List (DocId × Nat)} (given : session.requireDocs mode = .ok ())
    (scanned : session.collect mode handle forest = .ok matched middle)
    (occurring : Statistics.Occurring matched)
    (total : (matched.map Prod.snd).sum < Statistics.counterLimit) :
    ∃ after, scanStatistics node mode forest handle session =
      .ok (Statistics.of node.signature session.collection matched) after := by
  have documents : (Statistics.of node.signature session.collection matched).documents <
      Statistics.counterLimit :=
    Nat.lt_of_le_of_lt (Statistics.documents_le_frequency occurring) total
  have added : (Statistics.new node.signature session.collection).addMatches matched =
      .ok (Statistics.of node.signature session.collection matched) :=
    Statistics.addMatches_of [] matched total documents
  have run : ∃ kept, session.scanCursor node.signature mode handle forest =
      .ok (Statistics.of node.signature session.collection matched, kept) middle := by
    unfold scanCursor
    rw [Step.bind_ok _ scanned, Step.bind_ok _ (Step.ofExcept_run added middle)]
    exact ⟨_, rfl⟩
  obtain ⟨kept, run⟩ := run
  unfold scanStatistics
  rw [Step.bind_ok _ (Step.get_run session), Step.bind_ok _ (Step.ofExcept_run given session),
    Step.bind_ok _ (Step.ofExcept_run (Step.evaluate_ok run) session)]
  cases kept with
  | none => exact ⟨session, rfl⟩
  | some pairs => exact ⟨_, rfl⟩

/-- Statistics that are not known are scanned for. -/
theorem statisticsWith_eq {mode : Completion} {handle : Handle} {bench : Workbench}
    (built : (session.compiler false).build node ⟨Forest.empty, ScoringContext.new⟩ =
      .ok handle bench)
    (unknown : session.knownStatistics? node (bench.forest.cursor handle) = none)
    (counts : (bench.forest.capabilities handle).count = true) :
    statisticsWith node mode session = scanStatistics node mode bench.forest handle session := by
  have counting : (bench.forest.cursor handle).capabilities.count = true := counts
  unfold statisticsWith
  rw [Step.bind_ok _ (Step.get_run session), built]
  dsimp only
  rw [unknown]
  simp only [counting, if_true]

/-- The scans of one session agree, but for the documents that a sample leaves out. -/
theorem scans_agree {interval : Nat} {calls : List Index.Call}
    (produced : Index.Produced interval calls session.index) {customs : Customs}
    (described : session.registry.Described customs)
    (countable : node.Countable session.registry customs (Index.Ledger.ofCalls calls).contents)
    {handle : Handle} {kept : Arena} {bench : Workbench}
    (compiled : (session.compiler false).compile node Arena.empty
      ⟨Forest.empty, ScoringContext.new⟩ = .ok (handle, kept) bench)
    (counting : (bench.forest.capabilities handle).count = true)
    (scanning : (bench.forest.capabilities handle).aggregate = false)
    (unlisted : ∀ table, session.counts = some table →
      CountTable.isWindowOperator node.operator = true → table.get? node.signature = none) :
    ∃ matched : List (DocId × Nat),
      (∃ shown after, Forest.drain handle none bench.forest = .ok shown after ∧
        shown.map (fun item => (item.doc, item.count)) =
          matched.map fun pair => (pair.1, some pair.2)) ∧
      ((matched.map Prod.snd).sum < Statistics.counterLimit → ∀ docs : List DocId,
        let whole := Statistics.of node.signature session.collection matched
        let part := Statistics.of node.signature session.collection
          (matched.filter fun pair => docs.contains pair.1)
        (∃ after, statisticsWith node .full session = .ok whole after) ∧
        (∃ after, statisticsWith node .onepass (session.setCandidates docs) = .ok whole after) ∧
        (∃ after, statisticsWith node .sampled (session.setSample docs) = .ok part after) ∧
        part.frequency ≤ whole.frequency ∧ part.documents ≤ whole.documents ∧
        part.maximum ≤ whole.maximum ∧
        (part.documents = whole.documents ↔ ∀ pair ∈ matched, pair.1 ∈ docs) ∧
        (part.frequency = whole.frequency ↔ ∀ pair ∈ matched, pair.1 ∈ docs)) := by
  have built := Compiler.compile_eq_ok rfl compiled
  have tracks := (Compiler.build_grown produced.serves described rfl node countable built).tracks
  have unknown := knownStatistics?_eq_none scanning unlisted
  obtain ⟨_, _, shows⟩ := tracks.shows
  have counts := shows.capabilities ▸ counting
  obtain ⟨listing, drained, listed, drain⟩ := Forest.drain_lists tracks
  obtain ⟨_, scanned, rival, scan⟩ := Forest.tracks_follows.scan_lists tracks counts
  cases listed.unique rival
  refine ⟨listing.map Match.counted, ⟨_, drained, drain, shown_counted counts listing⟩, ?_⟩
  intro total docs whole part
  have occurring := occurring_of_listed tracks.sound counts listed
  have frequency : part.frequency ≤ whole.frequency := Statistics.frequency_filter_le _ _
  have complete : (∀ pair ∈ listing.map Match.counted, docs.contains pair.1 = true) ↔
      ∀ pair ∈ listing.map Match.counted, pair.1 ∈ docs := by
    simp only [List.contains_iff_mem]
  refine ⟨?_, ?_, ?_, frequency, Statistics.documents_filter_le _ _,
    Statistics.maximum_filter_le _ _, ?_, ?_⟩
  · rw [statisticsWith_eq built unknown counting]
    exact scanStatistics_of rfl scan occurring total
  · rw [@statisticsWith_eq (session.setCandidates docs) _ _ _ _ built unknown counting]
    exact scanStatistics_of rfl scan occurring total
  · obtain ⟨after, visited⟩ :=
      Forest.tracks_follows.sampledScan_sampled tracks counts (ascendingDocs_ascending docs)
    rw [sampled_ascendingDocs tracks.sound listed] at visited
    rw [@statisticsWith_eq (session.setSample docs) _ _ _ _ built unknown counting]
    exact scanStatistics_of rfl visited (occurring.filter _) (Nat.lt_of_le_of_lt frequency total)
  · exact (Statistics.documents_filter_eq_iff _ _).trans complete
  · exact (Statistics.frequency_filter_eq_iff _ _ occurring).trans complete

/-- A session with a constructor of its own scans for a union, in all documents and in
one. -/
theorem scans_agree_union :
    let session : Session :=
      ⟨Example.index, Config.new, Example.extended, Collection.empty, none, none, none,
        OccurrenceCache.empty⟩
    let node := Example.wrapped
    Index.Produced 1 Example.calls session.index ∧ session.registry.Described Example.customs ∧
      node.Countable session.registry Example.customs
        (Index.Ledger.ofCalls Example.calls).contents ∧
      (∀ table, session.counts = some table →
        CountTable.isWindowOperator node.operator = true → table.get? node.signature = none) ∧
      ∃ handle kept bench,
        (session.compiler false).compile node Arena.empty ⟨Forest.empty, ScoringContext.new⟩ =
          .ok (handle, kept) bench ∧
        (bench.forest.capabilities handle).count = true ∧
        (bench.forest.capabilities handle).aggregate = false ∧
        (∃ after, statisticsWith node .full session =
          .ok ⟨node.signature, 4, 2, 2, Collection.empty⟩ after) ∧
        ∃ after, statisticsWith node .sampled (session.setSample [Example.second, Example.second]) =
          .ok ⟨node.signature, 2, 1, 2, Collection.empty⟩ after := by
  intro session node
  have unlisted : ∀ table, session.counts = some table →
      CountTable.isWindowOperator node.operator = true → table.get? node.signature = none := by
    intro table held
    cases held
  refine ⟨Example.produced, Example.extended_described, Example.wrapped_countable, unlisted, ?_⟩
  have shows : Step.evaluate (do
      let result ← (session.compiler false).compile node Arena.empty
      let bench ← get
      let shown ← Workbench.onForest (Forest.drain result.1 none)
      pure (decide ((bench.forest.capabilities result.1).count = true ∧
        (bench.forest.capabilities result.1).aggregate = false) &&
        decide (shown.map (fun item => (item.doc, item.count)) =
          [(Example.first, 2), (Example.second, 2)].map fun pair => (pair.1, some pair.2))))
      ⟨Forest.empty, ScoringContext.new⟩ = .ok true := by cbv
  obtain ⟨final, run⟩ := Step.evaluate_eq_ok shows
  obtain ⟨result, bench, compiled, read⟩ := Step.bind_eq_ok run
  rw [Step.bind_ok _ (Step.get_run bench)] at read
  obtain ⟨seen, _, drained, read⟩ := Step.bind_eq_ok read
  obtain ⟨_, drained, _⟩ := Step.onPart_eq_ok drained
  injection read with read
  obtain ⟨offers, shows⟩ := Bool.and_eq_true_iff.mp read
  obtain ⟨counting, scanning⟩ := of_decide_eq_true offers
  obtain ⟨matched, ⟨shown, _, drain, pairs⟩, agree⟩ :=
    scans_agree Example.produced Example.extended_described Example.wrapped_countable compiled
      counting scanning unlisted
  cases drained.symm.trans drain
  have known : matched = [(Example.first, 2), (Example.second, 2)] :=
    (List.map_inj_right fun one other same => by
      simp only [Prod.mk.injEq, Option.some.injEq] at same
      exact Prod.ext same.1 same.2).mp (pairs.symm.trans (of_decide_eq_true shows))
  subst known
  obtain ⟨full, _, part, _⟩ := agree (by decide) [Example.second, Example.second]
  exact ⟨result.1, result.2, bench, compiled, counting, scanning, full, part⟩

end Session

end Concordance
