import Concordance.Proofs.Compile.Planting
import Concordance.Proofs.Cursor.Calls

/-!
# Arenas in use

An arena goes from one tree to the next, and meanwhile the cursors that it holds are called.
Over an index whose leaves do not fail a tree that is refused leaves all earlier cursors as they
were, and a call reaches no further than the tree of its cursor.  So whatever was done before,
every cursor that was given out can be called on.
-/

namespace Concordance

/-! ## Trees that are refused -/

namespace Forest

variable {law : Leaf.Law} {breaks : Error → Prop}

/-- Whether a combination is built is told before its children are moved. -/
theorem addComposite_spares {children : List Offer} {before middle : Forest}
    {handles : List Handle} {key : String} {offers : Handle → Offer} {starts : Handle → Nat}
    (sure : ∀ cause, ¬law.Fails cause)
    (planted : PlantedAll law children before handles middle offers starts)
    (combination : Combination) :
    (addComposite key combination handles).Spares middle (· = middle) := by
  unfold addComposite
  apply Step.Spares.behind (Step.get_run middle)
  apply Step.Spares.checked (by rfl)
  intro _ checked
  have sought := seek_poised (moveTo_drives _) (planted.siblings checked) fun child member =>
    ⟨0, Nat.le_refl DocId.zero.val, planted.poised child member⟩
  apply Step.Spares.bind
  · obtain ⟨_, _, run, _⟩ := sought.exists_ok sure
    exact Step.spares_done run
  · exact fun _ forest _ => Step.spares_done (add_run _ forest)

theorem addFeature_spares (key : String) (handles : List Handle) (estimator : EstimatorId)
    (scorer : String) (forest : Forest) :
    (addFeature key handles estimator scorer).Spares forest (· = forest) := by
  unfold addFeature
  split
  · apply Step.Spares.behind (Step.get_run forest)
    apply Step.Spares.checked (by rfl)
    exact fun _ _ => Step.spares_done (add_run _ forest)
  · exact Step.spares_failed rfl rfl

theorem addSource?_spares (index : Index) (key : Key) (withExtents : Bool) (forest : Forest) :
    (addSource? index key withExtents).Spares forest (· = forest) := by
  unfold addSource?
  apply Step.Spares.checked (by rfl)
  intro block _
  cases block with
  | none => exact Step.spares_done rfl
  | some block =>
      apply Step.Spares.bind
      · unfold addLeaf
        apply Step.Spares.checked (by rfl)
        exact fun _ _ => Step.spares_done (add_run _ forest)
      · exact fun _ _ _ => Step.spares_done rfl

/-- An implementation of the library that refuses a request leaves the forest as it was. -/
theorem implementation_spares {implementation : Implementation} {request : BuildRequest}
    {children : List Offer} {before middle : Forest} {offers : Handle → Offer}
    {starts : Handle → Nat} (sure : ∀ cause, ¬law.Fails cause)
    (library : ∀ build, implementation ≠ .custom build)
    (planted : PlantedAll law children before request.children middle offers starts) :
    (implementation.build request).Spares middle (· = middle) := by
  cases implementation with
  | source withExtents =>
      apply Step.Spares.checked (by rfl)
      intro _ _
      refine (addSource?_spares _ _ _ _).bind ?_
      rintro (_ | handle) forest _
      · exact Step.spares_done (add_run _ forest)
      · exact Step.spares_done rfl
  | window order =>
      apply Step.Spares.checked (by rfl)
      intro _ _
      exact addComposite_spares sure planted _
  | synonym => exact addComposite_spares sure planted .synonym
  | conjunction => exact addComposite_spares sure planted .conjunction
  | union => exact addComposite_spares sure planted .union
  | combine => exact addComposite_spares sure planted .combine
  | feature => exact addFeature_spares _ _ request.estimator request.scorer middle
  | null => exact Step.spares_done (add_run _ middle)
  | custom build => exact absurd rfl (library build)

theorem registry_spares {registry : Registry} (builtIn : registry.BuiltIn) {request : BuildRequest}
    {children : List Offer} {before middle : Forest} {offers : Handle → Offer}
    {starts : Handle → Nat} (sure : ∀ cause, ¬law.Fails cause)
    (planted : PlantedAll law children before request.children middle offers starts) :
    (registry.build request).Spares middle (· = middle) := by
  cases resolved : registry.resolve? request.node.operator with
  | none =>
      obtain ⟨cause, refused, _⟩ := Registry.build_unresolved resolved middle
      exact Step.spares_failed refused rfl
  | some implementation =>
      rw [Registry.build_resolved resolved]
      exact implementation_spares sure (builtIn _ _ resolved) planted

end Forest

namespace Compiler

variable {compiler : Compiler} {law : Leaf.Law} {breaks : Error → Prop}

mutual

/-- A tree that is refused leaves what the forest held before. -/
theorem build_spares (sure : ∀ cause, ¬law.Fails cause)
    (supplies : compiler.index.Supplies law breaks) (builtIn : compiler.registry.BuiltIn) :
    (node : Node) → (bench : Workbench) →
    (compiler.build node).Spares bench fun after => Forest.Kept bench.forest after.forest
  | ⟨operator, parameters, children⟩, bench => by
    rw [build]
    refine (buildChildren_spares sure supplies builtIn children [] bench).bind ?_
    intro handles middle built
    -- The root moves its children while it is built, so they have to be trees in order.
    obtain ⟨_, _, _, _, planted⟩ := (buildChildren_plants supplies builtIn children
      (Forest.plantedAll_nil bench.forest) (filed_nil _)).of_ok built
    rw [List.nil_append, List.nil_append] at planted
    apply Step.Spares.behind (allocate_run middle)
    let node : Node := ⟨operator, parameters, children⟩
    let request : BuildRequest :=
      ⟨node, node.signature, handles, compiler.index, middle.context.allocate.1, compiler.scorer⟩
    have rooted := @Forest.registry_spares _ _ builtIn request _ _ _ _ _ sure planted
    apply Step.Spares.bind
    · apply (Step.spares_onPart rooted).imp
      rintro _ ⟨_, rfl, rfl⟩
      exact planted.kept
    · intro handle grown _
      obtain ⟨_, seeded⟩ := compiler.seedBound_run children handle grown
      exact Step.spares_done (Step.bind_ok _ seeded)

theorem buildChildren_spares (sure : ∀ cause, ¬law.Fails cause)
    (supplies : compiler.index.Supplies law breaks) (builtIn : compiler.registry.BuiltIn) :
    (children : List Node) → (known : List (String × Handle)) → (bench : Workbench) →
    (compiler.buildChildren known children).Spares bench
      fun after => Forest.Kept bench.forest after.forest
  | [], known, bench => Step.spares_done rfl
  | child :: children, known, bench => by
    rw [buildChildren]
    split
    · refine (buildChildren_spares sure supplies builtIn children known bench).bind ?_
      exact fun _ _ _ => Step.spares_done rfl
    · refine (build_spares sure supplies builtIn child bench).bind ?_
      intro handle middle built
      obtain ⟨_, _, planted⟩ := (build_plants supplies builtIn child bench).of_ok built
      refine Step.Spares.bind ?_ fun _ _ _ => Step.spares_done rfl
      refine (buildChildren_spares sure supplies builtIn children _ middle).imp ?_
      exact fun _ kept => planted.kept.trans kept

end

/-! ## Cursors that were given out -/

/-- What is done with one arena: trees are compiled, each is given its cursor unless it is
refused, and cursors that were given out are called. -/
inductive Worked (compiler : Compiler) : Arena → Workbench → List Handle → Prop where
  | start (bench : Workbench) : Worked compiler Arena.empty bench []
  | compiled {arena kept : Arena} {bench after : Workbench} {given : List Handle} {node : Node}
      {handle : Handle} (worked : Worked compiler arena bench given)
      (run : compiler.compile node arena bench = .ok (handle, kept) after) :
      Worked compiler kept after (given ++ [handle])
  | refused {arena : Arena} {bench after : Workbench} {given : List Handle} {node : Node}
      {cause : Error} (worked : Worked compiler arena bench given)
      (run : compiler.compile node arena bench = .error cause after) :
      Worked compiler arena after given
  | called {arena : Arena} {bench : Workbench} {given : List Handle} {handle : Handle}
      (worked : Worked compiler arena bench given) (member : handle ∈ given)
      (call : Forest.Call) :
      Worked compiler arena
        { bench with forest := Step.endState (call.run handle) bench.forest } given

/-- The cursors that were given out can be moved, each in a stretch of its own, and those in the
arena are among them. -/
structure Lodged (law : Leaf.Law) (arena : Arena) (forest : Forest) (given : List Handle)
    (starts : Handle → Nat) : Prop where
  poised : ∀ handle ∈ given, ∃ offered weight floor, floor ≤ 18446744073709551616 ∧
    Forest.Poised law forest offered weight (starts handle) handle floor
  apart : ∀ first ∈ given, ∀ second ∈ given,
    first = second ∨ first.index < starts second ∨ second.index < starts first
  held : ∀ entry ∈ arena.entries, entry.2 ∈ given

namespace Lodged

variable {arena kept : Arena} {forest after : Forest} {given : List Handle}
  {starts : Handle → Nat} {handle : Handle}

/-- A tree that is built stands behind all others. -/
theorem fresh (lodged : Lodged law arena forest given starts) {offer : Offer}
    (tree : Forest.Planted law offer forest handle after)
    (keeps : ∀ entry ∈ kept.entries, entry ∈ arena.entries ∨ entry.2 = handle) :
    Lodged law kept after (given ++ [handle])
      (fun other => if other = handle then forest.cursors.size else starts other) := by
  have clear : ∀ other ∈ given, other.index < forest.cursors.size ∧ other ≠ handle := by
    intro other member
    obtain ⟨_, _, _, _, poised⟩ := lodged.poised other member
    have bound := poised.bound
    have behind := tree.poised.start_le
    refine ⟨bound, ?_⟩
    rintro rfl
    omega
  refine ⟨fun other member => ?_, Forest.apart_snoc clear lodged.apart, fun entry member => ?_⟩
  · rcases List.mem_append.mp member with earlier | last
    · obtain ⟨offered, weight, floor, bound, poised⟩ := lodged.poised other earlier
      rw [if_neg (clear other earlier).2]
      exact ⟨offered, weight, floor, bound, poised.kept tree.kept⟩
    · rw [List.mem_singleton.mp last, if_pos rfl]
      exact ⟨_, _, 0, Nat.zero_le _, tree.poised⟩
  · rcases keeps entry member with earlier | same
    · exact List.mem_append_left _ (lodged.held entry earlier)
    · exact List.mem_append_right _ (List.mem_singleton.mpr same)

/-- A tree can be given a cursor that was given out before. -/
theorem again (lodged : Lodged law arena forest given starts) (member : handle ∈ given) :
    Lodged law arena forest (given ++ [handle]) starts := by
  have among : ∀ other ∈ given ++ [handle], other ∈ given := by
    intro other isGiven
    rcases List.mem_append.mp isGiven with earlier | last
    · exact earlier
    · rw [List.mem_singleton.mp last]
      exact member
  exact ⟨fun other isGiven => lodged.poised other (among other isGiven),
    fun first isFirst second isSecond =>
      lodged.apart first (among first isFirst) second (among second isSecond),
    fun entry isEntry => List.mem_append_left _ (lodged.held entry isEntry)⟩

theorem stays (lodged : Lodged law arena forest given starts)
    (same : Forest.Kept forest after) : Lodged law arena after given starts := by
  refine ⟨fun handle member => ?_, lodged.apart, lodged.held⟩
  obtain ⟨offered, weight, floor, bound, poised⟩ := lodged.poised handle member
  exact ⟨offered, weight, floor, bound, poised.kept same⟩

/-- A call on one cursor leaves the others where they are. -/
theorem call (lodged : Lodged law arena forest given starts) (rests : law.Rests)
    (sure : ∀ cause, ¬law.Fails cause) (member : handle ∈ given) (call : Forest.Call) :
    Lodged law arena (Step.endState (call.run handle) forest) given starts := by
  obtain ⟨offered, weight, _, bound, poised⟩ := lodged.poised handle member
  have onward := Forest.Call.run_onward rests (poised.at_front bound) call
    fun cause _ _ => sure cause
  refine ⟨fun other isGiven => ?_, lodged.apart, lodged.held⟩
  rcases lodged.apart other isGiven handle member with rfl | clear
  · exact ⟨offered, weight, _, Forest.front_le _ _, onward.poised⟩
  · obtain ⟨offered, weight, floor, bound, poised⟩ := lodged.poised other isGiven
    refine ⟨offered, weight, floor, bound, poised.frame onward.outside ?_⟩
    omega

end Lodged

/-- Whatever is compiled and called, the cursors that were given out can be moved. -/
theorem worked_lodged (rests : law.Rests) (sure : ∀ cause, ¬law.Fails cause)
    (supplies : compiler.index.Supplies law breaks) (builtIn : compiler.registry.BuiltIn)
    {arena : Arena} {bench : Workbench} {given : List Handle}
    (worked : compiler.Worked arena bench given) :
    ∃ starts, Lodged law arena bench.forest given starts := by
  induction worked with
  | start bench => exact ⟨fun _ => 0, by simp, by simp, by simp [Arena.empty]⟩
  | @compiled _ _ bench _ _ node handle _ run induction =>
      obtain ⟨starts, lodged⟩ := induction
      rcases compile_cases run with ⟨_, held, rfl, rfl⟩ | ⟨_, built, keeps⟩
      · exact ⟨starts, lodged.again (lodged.held _ (Arena.mem_of_get? held))⟩
      · obtain ⟨_, _, tree⟩ := (build_plants supplies builtIn node bench).of_ok built
        refine ⟨_, lodged.fresh tree fun entry member => ?_⟩
        rw [keeps] at member
        by_cases shared : compiler.shareNodes = true
        · rw [if_pos shared] at member
          rcases Array.mem_push.mp member with earlier | rfl
          · exact .inl earlier
          · exact .inr rfl
        · rw [if_neg shared] at member
          exact .inl member
  | @refused _ bench _ _ node _ _ run induction =>
      obtain ⟨starts, lodged⟩ := induction
      exact ⟨starts, lodged.stays
        ((build_spares sure supplies builtIn node bench).of_error (compile_eq_error run))⟩
  | called _ member call induction =>
      obtain ⟨starts, lodged⟩ := induction
      exact ⟨starts, lodged.call rests sure member call⟩

end Compiler

end Concordance
