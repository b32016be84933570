import Concordance.Proofs.Session.Figures
import Concordance.Proofs.Step
import Concordance.Session.Basic

/-!
# Answers

A question for statistics ends in one of three ways: it fails, the figures are known without a
scan, or a scan of a fresh cursor finds the matches that they sum up.  Only such a scan leaves
something behind, and only where documents were given to keep counts of.
-/

namespace Concordance

namespace Session

variable {session : Session} {node : Node} {mode : Completion}

/-- The documents for which a scan keeps what it finds. -/
def inForce (session : Session) : Completion → List DocId
  | .full => []
  | .onepass => session.candidates.getD []
  | .sampled => session.sample.getD []

/-- What a scan keeps of what it finds. -/
def kept? (session : Session) (mode : Completion) (found : List (DocId × Nat)) :
    Option (List (DocId × Nat)) :=
  match mode with
  | .full => none
  | .onepass => some (found.filter fun pair => (session.inForce mode).contains pair.1)
  | .sampled => some found

/-- A session that has kept something under a key. -/
def keeping (session : Session) (key : String) : Option (List (DocId × Nat)) → Session
  | none => session
  | some pairs => { session with cache := session.cache.publish key pairs }

/-- How a session can answer when it is asked for the statistics of a node. -/
inductive Answers (session : Session) (node : Node) (mode : Completion) :
    EStateM.Result Error Session Statistics → Prop where
  | failed (cause : Error) : Answers session node mode (.error cause session)
  | known {handle : Handle} {bench : Workbench} {figures : Statistics}
      (built : (session.compiler false).build node ⟨Forest.empty, ScoringContext.new⟩ =
        .ok handle bench)
      (known : session.knownStatistics? node (bench.forest.cursor handle) = some figures) :
      Answers session node mode (.ok figures session)
  | scanned {handle : Handle} {bench : Workbench} {found : List (DocId × Nat)} {rest : Forest}
      (built : (session.compiler false).build node ⟨Forest.empty, ScoringContext.new⟩ =
        .ok handle bench)
      (unknown : session.knownStatistics? node (bench.forest.cursor handle) = none)
      (counts : (bench.forest.capabilities handle).count = true)
      (collected : session.collect mode handle bench.forest = .ok found rest) :
      Answers session node mode
        (.ok (Statistics.of node.signature session.collection found)
          (session.keeping (bench.forest.cursor handle).key (session.kept? mode found)))

/-- The result of a scan. -/
theorem scanCursor_eq_ok {name : String} {handle : Handle} {forest : Forest}
    {result : Statistics × Option (List (DocId × Nat))}
    (scanned : (session.scanCursor name mode handle).evaluate forest = .ok result) :
    ∃ found rest, session.collect mode handle forest = .ok found rest ∧
      result = (Statistics.of name session.collection found, session.kept? mode found) := by
  obtain ⟨middle, ran⟩ := Step.evaluate_eq_ok scanned
  obtain ⟨found, rest, collected, summed⟩ := Step.bind_eq_ok ran
  obtain ⟨figures, _, added, returned⟩ := Step.bind_eq_ok summed
  have same : figures = Statistics.of name session.collection found :=
    @Statistics.addMatches_eq_ok _ _ [] found _ (Step.ofExcept_eq_ok added).1
  refine ⟨found, rest, collected, ?_⟩
  cases returned
  rw [same]
  cases mode <;> rfl

theorem scanStatistics_answers {handle : Handle} {bench : Workbench}
    (built : (session.compiler false).build node ⟨Forest.empty, ScoringContext.new⟩ =
      .ok handle bench)
    (unknown : session.knownStatistics? node (bench.forest.cursor handle) = none)
    (counts : (bench.forest.capabilities handle).count = true) :
    Answers session node mode (scanStatistics node mode bench.forest handle session) := by
  unfold scanStatistics
  rw [Step.bind_ok _ (Step.get_run session)]
  cases session.requireDocs mode with
  | error cause => exact .failed cause
  | ok =>
      rw [Step.bind_ok _ (Step.ofExcept_run rfl session)]
      cases ran : (session.scanCursor node.signature mode handle).evaluate bench.forest with
      | error cause => exact .failed cause
      | ok result =>
          obtain ⟨found, rest, collected, rfl⟩ := scanCursor_eq_ok ran
          rw [Step.bind_ok _ (Step.ofExcept_run rfl session)]
          have answer := Answers.scanned built unknown counts collected
          cases kept : session.kept? mode found with
          | none =>
              rw [kept] at answer
              exact answer
          | some pairs =>
              rw [kept] at answer
              exact answer

theorem statisticsWith_answers (session : Session) (node : Node) (mode : Completion) :
    Answers session node mode (statisticsWith node mode session) := by
  unfold statisticsWith
  rw [Step.bind_ok _ (Step.get_run session)]
  cases built : (session.compiler false).build node ⟨Forest.empty, ScoringContext.new⟩ with
  | error cause bench => exact .failed cause
  | ok handle bench =>
      dsimp only
      cases unknown : session.knownStatistics? node (bench.forest.cursor handle) with
      | some figures => exact .known built unknown
      | none =>
          dsimp only
          split
          · rename_i counts
            exact scanStatistics_answers built unknown counts
          · exact .failed _

/-- Asking for statistics changes the cache of a session and nothing else. -/
theorem statisticsWith_frame (node : Node) (mode : Completion) (session : Session) : ∃ cache,
    (statisticsWith node mode).endState session = { session with cache := cache } := by
  have answers := statisticsWith_answers session node mode
  generalize run : statisticsWith node mode session = result at answers
  cases answers with
  | failed cause =>
      rw [Step.endState_error run]
      exact ⟨session.cache, rfl⟩
  | known =>
      rw [Step.endState_ok run]
      exact ⟨session.cache, rfl⟩
  | @scanned _ _ found =>
      rw [Step.endState_ok run]
      cases session.kept? mode found with
      | none => exact ⟨session.cache, rfl⟩
      | some pairs => exact ⟨_, rfl⟩

end Session

end Concordance
