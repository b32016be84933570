import Concordance.Proofs.Compile.Building
import Concordance.Proofs.Cursor.Foresight
import Concordance.Proofs.Cursor.Scan
import Concordance.Proofs.Session.Consistency
import Concordance.Proofs.Session.Occurrences

/-!
# Passes

A question for statistics makes a pass when it is answered by a scan that keeps what it finds.
A pass keeps the matches of its node in the documents that are in force, in ascending order, and
publishes them under the key of its cursor.  Any other question leaves the session as it was.
-/

namespace Concordance

namespace Session

variable {session : Session} {node : Node} {mode : Completion} {key : String}

/-- A node matches a document with a count: its cursor shows both once it is moved there. -/
def Finds (session : Session) (node : Node) (doc : DocId) (count : Nat) : Prop :=
  ∃ handle bench,
    (session.compiler false).build node ⟨Forest.empty, ScoringContext.new⟩ = .ok handle bench ∧
    bench.forest.Finds handle doc count

theorem finds_of_built {handle : Handle} {bench : Workbench}
    (built : (session.compiler false).build node ⟨Forest.empty, ScoringContext.new⟩ =
      .ok handle bench) (doc : DocId) (count : Nat) :
    session.Finds node doc count ↔ bench.forest.Finds handle doc count := by
  constructor
  · rintro ⟨_, _, again, finds⟩
    rw [built] at again
    cases again
    exact finds
  · exact fun finds => ⟨handle, bench, built, finds⟩

/-- A node whose matches can be counted finds what it means. -/
theorem finds_iff_found {interval : Nat} {contents : Contents} {customs : Customs}
    (serves : session.index.Serves interval contents)
    (described : session.registry.Described customs)
    (countable : node.Countable session.registry customs contents) {handle : Handle}
    {bench : Workbench}
    (built : (session.compiler false).build node ⟨Forest.empty, ScoringContext.new⟩ =
      .ok handle bench)
    (counts : (bench.forest.capabilities handle).count = true) (doc : DocId) (count : Nat) :
    session.Finds node doc count ↔
      ∃ here, (node.meaning session.registry customs contents).found doc = some here ∧
        here.count = count := by
  have tracks := (Compiler.build_grown serves described rfl node countable built).tracks
  obtain ⟨_, _, shows⟩ := tracks.shows
  rw [finds_of_built built]
  exact Forest.tracks_follows.finds_iff tracks (shows.capabilities ▸ counts)

/-! ## One pass -/

/-- A question for the statistics of a node makes a pass under a key: it is answered by a scan of
the cursor of that key, in a mode that keeps what it finds. -/
structure Passes (session : Session) (node : Node) (mode : Completion) (key : String) : Prop where
  keeps : mode ≠ .full
  answered : ∃ figures after, statisticsWith node mode session = .ok figures after
  scanned : ∃ handle bench,
    (session.compiler false).build node ⟨Forest.empty, ScoringContext.new⟩ = .ok handle bench ∧
    (bench.forest.cursor handle).key = key ∧
    session.knownStatistics? node (bench.forest.cursor handle) = none

/-- What a pass does: it publishes under the key of its cursor what it keeps of what it finds. -/
structure Pass (session : Session) (node : Node) (mode : Completion) (handle : Handle)
    (bench : Workbench) (pairs : List (DocId × Nat)) : Prop where
  built : (session.compiler false).build node ⟨Forest.empty, ScoringContext.new⟩ =
    .ok handle bench
  counts : (bench.forest.capabilities handle).count = true
  kept : ∃ found rest, session.collect mode handle bench.forest = .ok found rest ∧
    session.kept? mode found = some pairs
  publishes : (statisticsWith node mode).endState session =
    { session with cache := session.cache.publish (bench.forest.cursor handle).key pairs }
  keys : ∀ key, Passes session node mode key ↔ key = (bench.forest.cursor handle).key

/-- A question makes one pass or it changes nothing. -/
theorem asked_cases (session : Session) (node : Node) (mode : Completion) :
    ((statisticsWith node mode).endState session = session ∧
        ∀ key, ¬Passes session node mode key) ∨
      ∃ handle bench pairs, Pass session node mode handle bench pairs := by
  have answers := statisticsWith_answers session node mode
  generalize run : statisticsWith node mode session = result at answers
  cases answers with
  | failed cause =>
      refine .inl ⟨Step.endState_error run, fun key passes => ?_⟩
      obtain ⟨figures, after, answered⟩ := passes.answered
      rw [run] at answered
      cases answered
  | known built known =>
      refine .inl ⟨Step.endState_ok run, fun key passes => ?_⟩
      obtain ⟨handle, bench, again, _, unknown⟩ := passes.scanned
      rw [built] at again
      cases again
      rw [known] at unknown
      cases unknown
  | @scanned handle bench found rest built unknown counts collected =>
      cases kept : session.kept? mode found with
      | none =>
          rw [kept] at run
          refine .inl ⟨Step.endState_ok run, fun key passes => ?_⟩
          cases mode with
          | full => exact passes.keeps rfl
          | onepass => cases kept
          | sampled => cases kept
      | some pairs =>
          rw [kept] at run
          refine .inr ⟨handle, bench, pairs, built, counts, ⟨found, rest, collected, kept⟩,
            Step.endState_ok run, fun key => ⟨fun passes => ?_, ?_⟩⟩
          · obtain ⟨_, _, again, same, _⟩ := passes.scanned
            rw [built] at again
            cases again
            exact same.symm
          · rintro rfl
            refine ⟨?_, ⟨_, _, run⟩, handle, bench, built, rfl, unknown⟩
            rintro rfl
            cases kept

/-- A question that no scan answers, or whose scan keeps nothing, changes nothing. -/
theorem endState_of_quiet
    (quiet : mode = .full ∨ (∃ cause after, statisticsWith node mode session = .error cause after) ∨
      ∃ handle bench figures,
        (session.compiler false).build node ⟨Forest.empty, ScoringContext.new⟩ =
          .ok handle bench ∧
        session.knownStatistics? node (bench.forest.cursor handle) = some figures) :
    (statisticsWith node mode).endState session = session := by
  rcases asked_cases session node mode with ⟨same, _⟩ | ⟨_, _, _, pass⟩
  · exact same
  · have passes := (pass.keys _).mpr rfl
    exfalso
    rcases quiet with full | ⟨cause, after, failed⟩ | ⟨_, _, figures, built, known⟩
    · exact passes.keeps full
    · obtain ⟨_, _, answered⟩ := passes.answered
      rw [failed] at answered
      cases answered
    · obtain ⟨_, _, again, _, unknown⟩ := passes.scanned
      rw [built] at again
      cases again
      rw [known] at unknown
      cases unknown

/-- A pass keeps the matches of the node in the documents that are in force, in ascending
order. -/
theorem Pass.matches {breaks : Error → Prop} {handle : Handle} {bench : Workbench}
    {pairs : List (DocId × Nat)} (pass : Pass session node mode handle bench pairs)
    (supplies : session.index.Supplies .stored breaks) (orderly : session.Orderly) :
    OccurrenceCache.Ascending pairs ∧ ∀ doc count,
      (doc, count) ∈ pairs ↔ session.Finds node doc count ∧ doc ∈ session.inForce mode := by
  obtain ⟨found, rest, collected, kept⟩ := pass.kept
  have plants := @Compiler.build_plants (session.compiler false) _ _ supplies orderly.builtIn node
    ⟨Forest.empty, ScoringContext.new⟩
  obtain ⟨offer, _, planted⟩ := plants.of_ok pass.built
  obtain ⟨meaning, stands, foreseen, standing⟩ := planted.poised.foreseen
  have offers : meaning.capabilities.count = true := by
    rw [foreseen.capabilities, ← planted.poised.whole.capabilities]
    exact pass.counts
  obtain ⟨matched, _, listed, scan⟩ := foreseen.follows.scan_lists standing offers
  have same : pairs = (matched.map Match.counted).filter
      fun pair => (session.inForce mode).contains pair.1 := by
    cases mode with
    | full => cases kept
    | onepass =>
        cases scan.symm.trans collected
        exact (Option.some.inj kept).symm
    | sampled =>
        obtain ⟨_, visited⟩ := foreseen.follows.sampledScan_sampled standing offers orderly.sample
        cases visited.symm.trans collected
        rw [← Option.some.inj kept,
          listed.sampled_eq (foreseen.follows.place standing) orderly.sample, List.filter_map]
        rfl
  have finds : ∀ doc count, session.Finds node doc count ↔
      ∃ here, meaning.found doc = some here ∧ here.count = count := fun doc count =>
    (finds_of_built pass.built doc count).trans (foreseen.follows.finds_iff standing offers)
  have ascending : OccurrenceCache.Ascending (matched.map Match.counted) :=
    List.pairwise_map.mpr listed.ascending
  subst same
  refine ⟨ascending.filter _, fun doc count => ?_⟩
  rw [List.mem_filter, List.contains_iff_mem, finds, List.mem_map]
  refine and_congr_left fun _ => ⟨?_, ?_⟩
  · rintro ⟨here, member, same⟩
    cases same
    exact ⟨here, ((listed.mem_iff here).mp member).2, rfl⟩
  · rintro ⟨here, known, rfl⟩
    have place := foreseen.follows.place standing doc here known
    refine ⟨here, (listed.mem_iff here).mpr ⟨Nat.zero_le _, place ▸ known⟩, ?_⟩
    rw [Match.counted, place]

end Session

end Concordance
