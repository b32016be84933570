import Concordance.Proofs.Session.Passes

/-!
# The cache after a run

Whatever a session is asked, its cache has under each key what the last pass over a cursor of
that key found.  Full scans, figures that are known without a scan and questions that fail leave
every key as it was.
-/

namespace Concordance

namespace Session

variable {session : Session} {node : Node} {mode : Completion} {key : String}

/-! ## Runs -/

/-- What is done with a session: documents are given for the scans to come, or statistics are
asked for. -/
inductive Act where
  | candidates (docs : List DocId)
  | sample (docs : List DocId)
  | ask (node : Node) (mode : Completion)

namespace Act

def run (session : Session) : Act → Session
  | candidates docs => session.setCandidates docs
  | sample docs => session.setSample docs
  | ask node mode => (statisticsWith node mode).endState session

/-- The documents that are given for the scans of a mode. -/
def given? (mode : Completion) : Act → Option (List DocId)
  | candidates docs => if mode = .onepass then some docs else none
  | sample docs => if mode = .sampled then some docs else none
  | ask _ _ => none

/-- Whether a pass is made under a key. -/
def Publishes (session : Session) (key : String) : Act → Prop
  | candidates _ | sample _ => False
  | ask node mode => Passes session node mode key

end Act

def runAll (acts : List Act) (session : Session) : Session := acts.foldl Act.run session

/-- The documents that were given last for the scans of a mode. -/
def given (mode : Completion) (acts : List Act) : List DocId :=
  (acts.reverse.findSome? (Act.given? mode)).getD []

/-- No pass is made under a key. -/
def Silent (key : String) : Session → List Act → Prop
  | _, [] => True
  | session, act :: acts => ¬act.Publishes session key ∧ Silent key (act.run session) acts

variable {acts : List Act}

theorem runAll_append (front back : List Act) (session : Session) :
    runAll (front ++ back) session = runAll back (runAll front session) := List.foldl_append

theorem run_reached (reached : session.Reached) (act : Act) : (act.run session).Reached := by
  cases act with
  | candidates docs => exact reached.candidates docs
  | sample docs => exact reached.sampled docs
  | ask node mode => exact reached.asked node mode

theorem runAll_reached (reached : session.Reached) (acts : List Act) :
    (runAll acts session).Reached := by
  induction acts generalizing session with
  | nil => exact reached
  | cons act acts induction => exact induction (run_reached reached act)

/-- What a session answers with stays the same, whatever is done with it. -/
structure Alike (session other : Session) : Prop where
  index : other.index = session.index
  config : other.config = session.config
  registry : other.registry = session.registry
  collection : other.collection = session.collection
  counts : other.counts = session.counts

theorem run_alike (session : Session) (act : Act) : session.Alike (act.run session) := by
  cases act with
  | candidates docs => exact ⟨rfl, rfl, rfl, rfl, rfl⟩
  | sample docs => exact ⟨rfl, rfl, rfl, rfl, rfl⟩
  | ask node mode =>
      obtain ⟨cache, same⟩ := statisticsWith_frame node mode session
      rw [Act.run, same]
      exact ⟨rfl, rfl, rfl, rfl, rfl⟩

theorem runAll_alike (session : Session) (acts : List Act) :
    session.Alike (runAll acts session) := by
  induction acts generalizing session with
  | nil => exact ⟨rfl, rfl, rfl, rfl, rfl⟩
  | cons act acts induction =>
      have first := run_alike session act
      have rest := induction (act.run session)
      exact ⟨rest.index.trans first.index, rest.config.trans first.config,
        rest.registry.trans first.registry, rest.collection.trans first.collection,
        rest.counts.trans first.counts⟩

theorem Alike.compiler_eq {other : Session} (alike : session.Alike other) (shareNodes : Bool) :
    other.compiler shareNodes = session.compiler shareNodes := by
  unfold compiler
  rw [alike.index, alike.config, alike.registry, alike.counts]

theorem Alike.finds_iff {other : Session} (alike : session.Alike other) (node : Node)
    (doc : DocId) (count : Nat) : other.Finds node doc count ↔ session.Finds node doc count := by
  unfold Finds
  rw [alike.compiler_eq]

/-- The documents in force are those that were given last. -/
theorem mem_inForce_runAll (fresh : session.candidates = none) (bare : session.sample = none)
    (acts : List Act) (mode : Completion) (doc : DocId) :
    doc ∈ (runAll acts session).inForce mode ↔ doc ∈ given mode acts := by
  induction acts using List.reverseRecOn with
  | nil =>
      have nothing : session.inForce mode = [] := by cases mode <;> simp [inForce, fresh, bare]
      rw [runAll, List.foldl_nil, nothing]
      rfl
  | append_singleton acts act induction =>
      have last : given mode (acts ++ [act]) =
          match act.given? mode with
          | some docs => docs
          | none => given mode acts := by
        rw [given, List.reverse_concat, List.findSome?_cons]
        cases act.given? mode <;> rfl
      rw [last, runAll_append]
      generalize runAll acts session = middle at induction
      change doc ∈ (act.run middle).inForce mode ↔ _
      cases act with
      | candidates docs =>
          cases mode with
          | onepass => exact mem_ascendingDocs
          | full => exact induction
          | sampled => exact induction
      | sample docs =>
          cases mode with
          | sampled => exact mem_ascendingDocs
          | full => exact induction
          | onepass => exact induction
      | ask node other =>
          obtain ⟨cache, same⟩ := statisticsWith_frame node other middle
          rw [Act.run, same]
          cases mode <;> exact induction

/-! ## What a run leaves in the cache -/

theorem run_entry (act : Act) (quiet : ¬act.Publishes session key) :
    (act.run session).cache.entries.get? key = session.cache.entries.get? key := by
  cases act with
  | candidates docs => rfl
  | sample docs => rfl
  | ask node mode =>
      rw [Act.run]
      rcases asked_cases session node mode with ⟨same, _⟩ | ⟨_, _, _, pass⟩
      · rw [same]
      · rw [pass.publishes, OccurrenceCache.get?_publish]
        exact if_neg fun here => quiet ((pass.keys key).mpr here)

theorem runAll_entry (silent : Silent key session acts) :
    (runAll acts session).cache.entries.get? key = session.cache.entries.get? key := by
  induction acts generalizing session with
  | nil => rfl
  | cons act acts induction => exact (induction silent.2).trans (run_entry act silent.1)

/-- A pass leaves what it keeps under its key. -/
theorem pass_entry {breaks : Error → Prop} (supplies : session.index.Supplies .stored breaks)
    (orderly : session.Orderly) (passes : Passes session node mode key) :
    ∃ pairs, ((Act.ask node mode).run session).cache.entries.get? key = some pairs ∧
      OccurrenceCache.Ascending pairs ∧ ∀ doc count,
        (doc, count) ∈ pairs ↔ session.Finds node doc count ∧ doc ∈ session.inForce mode := by
  rcases asked_cases session node mode with ⟨_, quiet⟩ | ⟨handle, bench, pairs, pass⟩
  · exact absurd passes (quiet key)
  · refine ⟨pairs, ?_, pass.matches supplies orderly⟩
    rw [Act.run, pass.publishes, OccurrenceCache.get?_publish]
    exact if_pos ((pass.keys key).mp passes)

/-- A run makes no pass under a key, or there is a last one. -/
theorem silent_or_last (key : String) (acts : List Act) (session : Session) :
    Silent key session acts ∨ ∃ front node mode back, acts = front ++ .ask node mode :: back ∧
      Passes (runAll front session) node mode key ∧
      Silent key (runAll (front ++ [.ask node mode]) session) back := by
  induction acts generalizing session with
  | nil => exact .inl trivial
  | cons act acts induction =>
      rcases induction (act.run session) with
        silent | ⟨front, node, mode, back, rfl, passes, silent⟩
      · by_cases published : act.Publishes session key
        · cases act with
          | candidates docs => exact published.elim
          | sample docs => exact published.elim
          | ask node mode => exact .inr ⟨[], node, mode, acts, rfl, published, silent⟩
        · exact .inl ⟨published, silent⟩
      · exact .inr ⟨act :: front, node, mode, back, rfl, passes, silent⟩

section Started

variable {index : Index} {config : Config} {file : String → StoredFile} {interval : Nat}
  {calls : List Index.Call}

/-- A session that was just started has been given no documents and has nothing cached. -/
theorem start_fresh (started : start index config file = .ok session) :
    session.index = index ∧ session.candidates = none ∧ session.sample = none ∧
      session.cache = OccurrenceCache.empty := by
  obtain ⟨_, _, same⟩ := Step.ok_of_bind started
  cases same
  exact ⟨rfl, rfl, rfl, rfl⟩

variable (produced : Index.Produced interval calls index)
  (started : start index config file = .ok session)

include produced started

/-- After the last pass under a key its matches stay in the cache. -/
theorem last_entry {front back : List Act} (passes : Passes (runAll front session) node mode key)
    (silent : Silent key (runAll (front ++ [.ask node mode]) session) back) :
    ∃ pairs, (runAll (front ++ .ask node mode :: back) session).cache.entries.get? key =
        some pairs ∧
      OccurrenceCache.Ascending pairs ∧ ∀ doc count, (doc, count) ∈ pairs ↔
        session.Finds node doc count ∧ doc ∈ given mode front := by
  obtain ⟨onIndex, noCandidates, noSample, _⟩ := start_fresh started
  have alike := runAll_alike session front
  have supplies := produced.serves.supplies
  rw [← onIndex, ← alike.index] at supplies
  obtain ⟨pairs, held, ascending, matched⟩ :=
    pass_entry supplies (runAll_reached (.started started) front).orderly passes
  refine ⟨pairs, ?_, ascending, fun doc count => ?_⟩
  · rw [List.append_cons, runAll_append, runAll_entry silent, runAll_append]
    exact held
  · rw [matched, alike.finds_iff, mem_inForce_runAll noCandidates noSample]

/-- Nothing is kept under a key exactly if no pass was made under it. -/
theorem entry_eq_none (acts : List Act) (key : String) :
    (runAll acts session).cache.entries.get? key = none ↔ Silent key session acts := by
  constructor
  · intro missing
    rcases silent_or_last key acts session with
      silent | ⟨front, node, mode, back, rfl, passes, silent⟩
    · exact silent
    · obtain ⟨pairs, held, _⟩ := last_entry produced started passes silent
      rw [missing] at held
      cases held
  · intro silent
    obtain ⟨_, _, _, empty⟩ := start_fresh started
    rw [runAll_entry silent, empty]
    rfl

theorem entry_ascending (acts : List Act) {pairs : List (DocId × Nat)}
    (held : (runAll acts session).cache.entries.get? key = some pairs) :
    OccurrenceCache.Ascending pairs := by
  rcases silent_or_last key acts session with
    silent | ⟨front, node, mode, back, rfl, passes, silent⟩
  · rw [(entry_eq_none produced started acts key).mpr silent] at held
    cases held
  · obtain ⟨others, known, ascending, _⟩ := last_entry produced started passes silent
    rw [held] at known
    cases known
    exact ascending

end Started

/-- The cache of a session has what the last pass under each key found, and nothing else. -/
theorem cache_latest {index : Index} {config : Config} {file : String → StoredFile}
    {interval : Nat} {calls : List Index.Call} (produced : Index.Produced interval calls index)
    (started : start index config file = .ok session) (acts : List Act) :
    let final := runAll acts session
    (∀ key, (final.cache.get? key).1 = none ↔ Silent key session acts) ∧
    (∀ key front node mode back, acts = front ++ .ask node mode :: back →
      Passes (runAll front session) node mode key →
      Silent key (runAll (front ++ [.ask node mode]) session) back →
      ∃ pairs, (final.cache.get? key).1 = some pairs ∧
        (pairs.Pairwise fun first second => first.1 < second.1) ∧
        ∀ doc count, (doc, count) ∈ pairs ↔
          session.Finds node doc count ∧ doc ∈ given mode front) ∧
    (∀ key doc count, (final.cache.count? key doc).1 = some count ↔
      ∃ pairs, (final.cache.get? key).1 = some pairs ∧ (doc, count) ∈ pairs) ∧
    ∀ node mode, mode = .full ∨
        (∃ cause after, statisticsWith node mode final = .error cause after) ∨
        (∃ handle bench figures,
          (final.compiler false).build node ⟨Forest.empty, ScoringContext.new⟩ =
            .ok handle bench ∧
          final.knownStatistics? node (bench.forest.cursor handle) = some figures) →
      (Act.ask node mode).run final = final := by
  intro final
  simp only [OccurrenceCache.fst_get?]
  refine ⟨entry_eq_none produced started acts, ?_, fun key doc count => ?_,
    fun node mode quiet => ?_⟩
  · rintro key front node mode back rfl passes silent
    exact last_entry produced started passes silent
  · exact OccurrenceCache.count?_eq_some fun pairs held =>
      entry_ascending produced started acts held
  · exact endState_of_quiet quiet

end Session

namespace Example

/-- The first session, once documents were given for each mode, whatever it has cached. -/
def supplied (cache : OccurrenceCache) : Session :=
  { session with
    candidates := some (ascendingDocs [second])
    sample := some (ascendingDocs [first])
    cache := cache }

theorem supplied_answers (cache : OccurrenceCache) :
    Step.evaluate (Session.statisticsWith either .onepass) (supplied cache) =
      .ok ⟨either.signature, 4, 2, 2, Collection.empty⟩ := by
  cbv

theorem supplied_passes (cache : OccurrenceCache) :
    ∃ key, Session.Passes (supplied cache) either .onepass key := by
  obtain ⟨after, answered⟩ := Step.evaluate_eq_ok (supplied_answers cache)
  have shows : Step.evaluate (do
      let handle ← (session.compiler false).build either
      let bench ← get
      pure (session.knownStatistics? either (bench.forest.cursor handle)).isNone)
      ⟨Forest.empty, ScoringContext.new⟩ = .ok true := by cbv
  obtain ⟨_, run⟩ := Step.evaluate_eq_ok shows
  obtain ⟨handle, bench, built, read⟩ := Step.bind_eq_ok run
  rw [Step.bind_ok _ (Step.get_run bench)] at read
  injection read with unknown
  exact ⟨_, Completion.noConfusion, ⟨_, _, answered⟩, handle, bench, built, rfl,
    Option.isNone_iff_eq_none.mp unknown⟩

/-- The figures of a key are known without a scan. -/
theorem term_quiet {later : Session} (alike : session.Alike later) (mode : Completion)
    (key : String) : ¬Session.Passes later (Node.term "a") mode key := by
  have shows : Step.evaluate (do
      let handle ← (session.compiler false).build (Node.term "a")
      let bench ← get
      pure ((bench.forest.cursor handle).statistics? session.collection).isSome)
      ⟨Forest.empty, ScoringContext.new⟩ = .ok true := by cbv
  obtain ⟨_, run⟩ := Step.evaluate_eq_ok shows
  obtain ⟨handle, bench, built, read⟩ := Step.bind_eq_ok run
  rw [Step.bind_ok _ (Step.get_run bench)] at read
  injection read with known
  obtain ⟨figures, shown⟩ := Option.isSome_iff_exists.mp known
  intro passes
  obtain ⟨_, _, again, _, unknown⟩ := passes.scanned
  rw [alike.compiler_eq, built] at again
  cases again
  rw [Session.knownStatistics?, alike.collection, shown] at unknown
  cases unknown

theorem either_finds : session.Finds either second 2 := by
  have shows : Step.evaluate (do
      let handle ← (session.compiler false).build either
      let bench ← get
      let _ ← Workbench.onForest (Forest.moveTo handle second)
      let moved ← get
      pure (decide (moved.forest.hasMatch handle second = true ∧
        moved.forest.count handle = .ok 2)))
      ⟨Forest.empty, ScoringContext.new⟩ = .ok true := by cbv
  obtain ⟨_, run⟩ := Step.evaluate_eq_ok shows
  obtain ⟨handle, bench, built, read⟩ := Step.bind_eq_ok run
  rw [Step.bind_ok _ (Step.get_run bench)] at read
  obtain ⟨_, moved, sought, read⟩ := Step.bind_eq_ok read
  rw [Step.bind_ok _ (Step.get_run moved)] at read
  injection read with shown
  obtain ⟨here, counted⟩ := of_decide_eq_true shown
  obtain ⟨after, sought, same⟩ := Step.onPart_eq_ok sought
  rw [same] at here counted
  exact ⟨handle, bench, built, after, sought, here, counted⟩

end Example

namespace Session

/-- A second pass under the key of a union takes the place of the first, and neither a full
scan nor known figures take it away. -/
theorem cache_latest_either :
    let front := [.sample [Example.first], .ask Example.either .sampled,
      .candidates [Example.second]]
    let back := [.ask Example.either .full, .ask (Node.term "a") .sampled]
    let final := runAll (front ++ .ask Example.either .onepass :: back) Example.session
    Index.Produced 1 Example.calls Example.index ∧
      start Example.index Config.new (fun name => ⟨name, none⟩) = .ok Example.session ∧
      ∃ key, Passes (runAll front Example.session) Example.either .onepass key ∧
        Silent key (runAll (front ++ [.ask Example.either .onepass]) Example.session) back ∧
        (final.cache.count? key Example.second).1 = some 2 ∧
        (final.cache.count? key Example.first).1 = none := by
  intro front back final
  obtain ⟨cache, same⟩ := statisticsWith_frame Example.either .sampled
    (Example.session.setSample [Example.first])
  have reached : runAll front Example.session = Example.supplied cache :=
    congrArg (fun middle => setCandidates middle [Example.second]) same
  obtain ⟨key, passes⟩ := Example.supplied_passes cache
  rw [← reached] at passes
  have silent : Silent key (runAll (front ++ [.ask Example.either .onepass]) Example.session)
      back := by
    have alike := runAll_alike Example.session
      (front ++ [.ask Example.either .onepass] ++ [.ask Example.either .full])
    rw [runAll_append] at alike
    exact ⟨fun full => full.keeps rfl, Example.term_quiet alike .sampled key, trivial⟩
  obtain ⟨_, latest, counts, _⟩ :=
    cache_latest Example.produced Example.session_started
      (front ++ .ask Example.either .onepass :: back)
  obtain ⟨pairs, held, _, matched⟩ := latest key front _ _ back rfl passes silent
  refine ⟨Example.produced, Example.session_started, key, passes, silent, ?_, ?_⟩
  · refine (counts key _ _).mpr ⟨pairs, held, (matched _ _).mpr ⟨Example.either_finds, ?_⟩⟩
    exact List.mem_singleton.mpr rfl
  · apply Option.eq_none_iff_forall_ne_some.mpr
    intro count known
    obtain ⟨others, again, member⟩ := (counts key _ _).mp known
    rw [held] at again
    cases again
    have given := List.mem_singleton.mp ((matched _ _).mp member).2
    exact absurd given (by decide)

end Session

end Concordance
