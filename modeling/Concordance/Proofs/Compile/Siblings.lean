import Concordance.Proofs.Compile.Sharing
import Concordance.Proofs.Compile.Presence
import Concordance.Proofs.Cursor.Twins

/-!
# One cursor for identical siblings

Where siblings with one text are one tree, a query that is compiled with sharing cannot be
told apart from one that is compiled without: the cursors of the two have one tree.
-/

namespace Concordance

/-- Trees in which siblings with one text are one tree, everywhere. -/
inductive Node.Distinct : Node → Prop where
  | intro (node : Node) (children : ∀ child ∈ node.children, Distinct child)
      (siblings : ∀ first ∈ node.children, ∀ second ∈ node.children,
        first.text = second.text → first = second) : Distinct node

namespace Forest

variable {law : Leaf.Law}

/-- A cursor that can be moved on. -/
def Rooted (law : Leaf.Law) (forest : Forest) (handle : Handle) : Prop :=
  ∃ offered weight start floor, Poised law forest offered weight start handle floor

/-- Two cursors with one tree. -/
structure Twin (law : Leaf.Law) (forest : Forest) (handle : Handle) (other : Forest)
    (rival : Handle) : Prop where
  here : Rooted law forest handle
  there : Rooted law other rival
  same : forest.unfold handle = other.unfold rival

theorem Poised.unfold_kept {before after : Forest} {offered : Capabilities}
    {weight start floor : Nat} {handle : Handle}
    (poised : Poised law before offered weight start handle floor) (kept : Kept before after) :
    after.unfold handle = before.unfold handle :=
  poised.unfold_congr fun place _ upTo =>
    kept.same place (Nat.lt_of_le_of_lt upTo poised.bound)

theorem Rooted.kept {before after : Forest} {handle : Handle} (rooted : Rooted law before handle)
    (kept : Kept before after) : Rooted law after handle := by
  obtain ⟨offered, weight, start, floor, poised⟩ := rooted
  exact ⟨offered, weight, start, floor, poised.kept kept⟩

theorem Rooted.unfold_kept {before after : Forest} {handle : Handle}
    (rooted : Rooted law before handle) (kept : Kept before after) :
    after.unfold handle = before.unfold handle := by
  obtain ⟨_, _, _, _, poised⟩ := rooted
  exact poised.unfold_kept kept

theorem Twin.kept {before after other later : Forest} {handle rival : Handle}
    (twin : Twin law before handle other rival) (kept : Kept before after)
    (keptOther : Kept other later) : Twin law after handle later rival :=
  ⟨twin.here.kept kept, twin.there.kept keptOther,
    (twin.here.unfold_kept kept).trans (twin.same.trans (twin.there.unfold_kept keptOther).symm)⟩

theorem Planted.rooted {offer : Offer} {before after : Forest} {handle : Handle}
    (planted : Planted law offer before handle after) : Rooted law after handle :=
  ⟨_, _, _, _, planted.poised⟩

/-! ## Building over two broods -/

/-- Children that offer the same under the same names. -/
def OfferAlike (forest other : Forest) (handle rival : Handle) : Prop :=
  forest.capabilities handle = other.capabilities rival ∧
    (forest.cursor handle).key = (other.cursor rival).key

section Checks

variable {forest other : Forest} {handles rivals : List Handle}

theorem offerAlike_of_map (same : handles.map forest.unfold = rivals.map other.unfold) :
    List.Forall₂ (OfferAlike forest other) handles rivals :=
  (forall₂_of_map same).imp fun _ _ known =>
    ⟨capabilities_alike known.2.2, key_alike known.2.2⟩

variable (same : List.Forall₂ (OfferAlike forest other) handles rivals)

include same

theorem require_congr (operator : String) (needed : Capabilities) :
    forest.require operator needed handles = other.require operator needed rivals := by
  induction same with
  | nil => rfl
  | cons known _ induction => rw [require, require, known.1, known.2, induction]

theorem checkChildren_congr (combination : Combination) :
    forest.checkChildren combination handles = other.checkChildren combination rivals := by
  have checked := require_congr same combination.operatorName combination.needs
  unfold checkChildren
  rw [checked]
  cases same <;> rfl

end Checks

theorem unfold_push_composite {after : Forest} {brood : Brood} {parent : Composite}
    (standing : ∀ child ∈ parent.children, ∃ floor, brood.Stands law child floor after) :
    (after.push (.composite parent)).unfold ⟨after.cursors.size⟩ =
      .composite parent.key parent.combination parent.current
        (parent.children.map after.unfold) := by
  choose! floors poised using standing
  have pushed := kept_push after (.composite parent)
  rw [unfold_composite (cursor_push_self after _)
    (fun child member => Poised.bound (poised child member))
    fun child member => Poised.kept (poised child member) pushed]
  congr 1
  apply List.map_congr_left
  intro child member
  exact Poised.unfold_kept (poised child member) pushed

/-- Two ways to build a cursor that refuse for one cause or give one tree. -/
abbrev BuildsAlike (first second : Step Forest Handle) (forest other : Forest) : Prop :=
  first.Agrees second forest other fun handle after rival later =>
    after.unfold handle = later.unfold rival

section Parents

variable {children childrenOther : List Offer} {before middle beforeOther other : Forest}
  {handles rivals : List Handle} {offers offersOther : Handle → Offer}
  {starts startsOther : Handle → Nat} (rests : law.Rests) (sure : ∀ cause, ¬law.Fails cause)
  (planted : PlantedAll law children before handles middle offers starts)
  (plantedOther : PlantedAll law childrenOther beforeOther rivals other offersOther startsOther)
  (same : handles.map middle.unfold = rivals.map other.unfold)

include rests sure planted plantedOther same

theorem addComposite_alike (key : String) (combination : Combination) :
    BuildsAlike (addComposite key combination handles) (addComposite key combination rivals) middle
      other := by
  have checks := checkChildren_congr (offerAlike_of_map same) combination
  unfold addComposite
  apply Step.agrees_behind (Step.get_run middle) (Step.get_run other)
  apply Step.agrees_checked checks
  intro _ checked
  let brood : Brood := ⟨handles, fun child => (offers child).capabilities,
    fun child => (offers child).weight, starts⟩
  let broodOther : Brood := ⟨rivals, fun child => (offersOther child).capabilities,
    fun child => (offersOther child).weight, startsOther⟩
  have siblings := planted.siblings checked
  have siblingsOther := plantedOther.siblings (checks.symm.trans checked)
  have abreast : Abreast law brood broodOther DocId.zero.val middle other :=
    ⟨fun child member => ⟨0, Nat.le_refl _, planted.poised child member⟩,
      fun rival member => ⟨0, Nat.le_refl _, plantedOther.poised rival member⟩, same⟩
  obtain ⟨first, after, later, sought, soughtOther, stands⟩ := seek_both
    (moveTo_reliable rests sure _) siblings (moveTo_reliable rests sure _) siblingsOther
    (moveTo_alike rests sure _ _) abreast
  apply Step.agrees_behind sought soughtOther
  refine Step.agrees_ok (add_run _ _) (add_run _ _) ?_
  have tree := @unfold_push_composite law after brood ⟨key, combination, handles, first⟩
    stands.here.standing
  have treeOther := @unfold_push_composite law later broodOther
    ⟨key, combination, rivals, first⟩ stands.there.standing
  rw [tree, treeOther]
  exact congrArg _ stands.same

omit rests sure in
theorem addFeature_alike (key : String) (estimator rival : EstimatorId) (scorer : String) :
    BuildsAlike (addFeature key handles estimator scorer) (addFeature key rivals rival scorer)
      middle other := by
  have pairs := offerAlike_of_map same
  have length := pairs.length_eq
  unfold addFeature
  rcases handles with _ | ⟨child, _ | ⟨second, handles⟩⟩ <;>
    rcases rivals with _ | ⟨twin, _ | ⟨third, rivals⟩⟩ <;> try cases length
  · exact Step.agrees_error rfl rfl
  · have checks := require_congr pairs "feature" Capabilities.onlyCount
    dsimp only
    apply Step.agrees_behind (Step.get_run middle) (Step.get_run other)
    apply Step.agrees_checked checks
    intro _ _
    refine Step.agrees_ok (add_run _ _) (add_run _ _) ?_
    have poised := planted.poised child List.mem_cons_self
    have poisedTwin := plantedOther.poised twin List.mem_cons_self
    have pushed := kept_push middle (.feature ⟨key, child, estimator, scorer⟩)
    have pushedTwin := kept_push other (.feature ⟨key, twin, rival, scorer⟩)
    rw [unfold_feature (cursor_push_self middle _) poised.bound (poised.kept pushed),
      unfold_feature (cursor_push_self other _) poisedTwin.bound (poisedTwin.kept pushedTwin),
      poised.unfold_kept pushed, poisedTwin.unfold_kept pushedTwin]
    exact congrArg _ (List.cons.inj same).1
  · dsimp only
    rw [length]
    exact Step.agrees_error rfl rfl

end Parents

theorem addNull_alike (key : String) (forest other : Forest) :
    BuildsAlike (add (.null key)) (add (.null key)) forest other := by
  refine Step.agrees_ok (add_run _ _) (add_run _ _) ?_
  rw [unfold_null (cursor_push_self forest _), unfold_null (cursor_push_self other _)]

theorem addLeaf_alike (key : Key) (block : List UInt8) (withExtents : Bool)
    (forest other : Forest) :
    BuildsAlike (addLeaf key block withExtents) (addLeaf key block withExtents) forest other := by
  unfold addLeaf
  cases opened : Leaf.open? key block withExtents with
  | error cause => exact Step.agrees_error rfl rfl
  | ok leaf =>
      refine Step.agrees_ok (add_run _ _) (add_run _ _) ?_
      rw [unfold_leaf (cursor_push_self forest _), unfold_leaf (cursor_push_self other _)]

theorem addSource?_alike (index : Index) (key : Key) (withExtents : Bool) (forest other : Forest) :
    (addSource? index key withExtents).Agrees (addSource? index key withExtents) forest other
      fun found after rival later =>
        found.map after.unfold = rival.map later.unfold := by
  unfold addSource?
  cases held : index.block? key with
  | error cause => exact Step.agrees_error rfl rfl
  | ok block =>
      apply Step.agrees_behind (Step.ofExcept_run rfl forest) (Step.ofExcept_run rfl other)
      cases block with
      | none => exact Step.agrees_ok rfl rfl rfl
      | some block =>
          apply (addLeaf_alike key block withExtents forest other).bind
          intro handle after rival later _ _ same
          exact Step.agrees_ok rfl rfl (congrArg some same)

/-- An implementation of the library builds alike over children with the same trees. -/
theorem implementation_alike {implementation : Implementation} {request : BuildRequest}
    {children childrenOther : List Offer} {before middle beforeOther other : Forest}
    {rivals : List Handle} {offers offersOther : Handle → Offer} {starts startsOther : Handle → Nat}
    (rests : law.Rests) (sure : ∀ cause, ¬law.Fails cause)
    (library : ∀ build, implementation ≠ .custom build)
    (planted : PlantedAll law children before request.children middle offers starts)
    (plantedOther : PlantedAll law childrenOther beforeOther rivals other offersOther startsOther)
    (same : request.children.map middle.unfold = rivals.map other.unfold)
    (estimator : EstimatorId) :
    BuildsAlike (implementation.build request)
      (implementation.build { request with children := rivals, estimator := estimator }) middle
      other := by
  cases implementation with
  | source withExtents =>
      cases known : request.leafKey with
      | error cause =>
          exact Step.agrees_error (Step.bind_error _ (Step.ofExcept_error known middle))
            (Step.bind_error _ (Step.ofExcept_error known other))
      | ok key =>
          apply Step.agrees_behind (Step.ofExcept_run known middle) (Step.ofExcept_run known other)
          apply (addSource?_alike request.index (Key.ofText key) withExtents middle other).bind
          intro found after rival later _ _ known
          cases found <;> cases rival <;> try cases known
          · exact addNull_alike key after later
          · exact Step.agrees_ok rfl rfl (Option.some.inj known)
  | window order =>
      have width : request.defaultWidth order =
          BuildRequest.defaultWidth { request with children := rivals, estimator := estimator }
            order := by
        have length := (offerAlike_of_map same).length_eq
        cases order with
        | ordered => rfl
        | unordered => simp only [BuildRequest.defaultWidth, length]
      unfold Implementation.build
      dsimp only
      rw [← width]
      have asked : BuildRequest.windowWidth
          { request with children := rivals, estimator := estimator }
          (request.defaultWidth order) = request.windowWidth (request.defaultWidth order) := rfl
      rw [asked]
      cases request.windowWidth (request.defaultWidth order) with
      | error cause => exact Step.agrees_error rfl rfl
      | ok width =>
          apply Step.agrees_behind (Step.ofExcept_run rfl middle) (Step.ofExcept_run rfl other)
          exact addComposite_alike rests sure planted plantedOther same _ _
  | synonym => exact addComposite_alike rests sure planted plantedOther same _ .synonym
  | conjunction => exact addComposite_alike rests sure planted plantedOther same _ .conjunction
  | union => exact addComposite_alike rests sure planted plantedOther same _ .union
  | combine => exact addComposite_alike rests sure planted plantedOther same _ .combine
  | feature => exact addFeature_alike planted plantedOther same _ _ _ _
  | null => exact addNull_alike _ middle other
  | custom build => exact absurd rfl (library build)

theorem registry_alike {registry : Registry} (builtIn : registry.BuiltIn) {request : BuildRequest}
    {children childrenOther : List Offer} {before middle beforeOther other : Forest}
    {rivals : List Handle} {offers offersOther : Handle → Offer} {starts startsOther : Handle → Nat}
    (rests : law.Rests) (sure : ∀ cause, ¬law.Fails cause)
    (planted : PlantedAll law children before request.children middle offers starts)
    (plantedOther : PlantedAll law childrenOther beforeOther rivals other offersOther startsOther)
    (same : request.children.map middle.unfold = rivals.map other.unfold)
    (estimator : EstimatorId) :
    BuildsAlike (registry.build request)
      (registry.build { request with children := rivals, estimator := estimator }) middle other := by
  cases resolved : registry.resolve? request.node.operator with
  | none =>
      unfold Registry.build
      unfold Registry.resolve? at resolved
      cases named : registry.implementationId? request.node.operator with
      | none => exact Step.agrees_error rfl rfl
      | some id =>
          rw [named] at resolved
          dsimp only
          rw [show registry.implementations.get? id = none from resolved]
          exact Step.agrees_error rfl rfl
  | some implementation =>
      rw [Registry.build_resolved resolved, @Registry.build_resolved registry
        { request with children := rivals, estimator := estimator } _ resolved]
      exact implementation_alike rests sure (builtIn _ _ resolved) planted plantedOther same
        estimator

end Forest

/-! ## Compiling with and without sharing -/

namespace Compiler

variable {compiler : Compiler} {law : Leaf.Law}

/-- The compiler with sharing on. -/
def sharing (compiler : Compiler) : Compiler := { compiler with shareNodes := true }

/-- The compiler with sharing off. -/
def apart (compiler : Compiler) : Compiler := { compiler with shareNodes := false }

/-- A cursor that has the tree of a node however often the node is compiled by itself. -/
def Stands (compiler : Compiler) (law : Leaf.Law) (node : Node) (forest : Forest)
    (handle : Handle) : Prop :=
  ∀ bench, ∃ rival later, compiler.apart.build node bench = .ok rival later ∧
    Forest.Twin law forest handle later.forest rival

/-- The cursors that are known under some texts stand for siblings that have these. -/
def Knows (compiler : Compiler) (law : Leaf.Law) (siblings : List Node)
    (known : List (String × Handle)) (forest : Forest) : Prop :=
  ∀ entry ∈ known, ∃ node ∈ siblings, node.text = entry.1 ∧
    compiler.Stands law node forest entry.2

theorem Stands.kept {node : Node} {before after : Forest} {handle : Handle}
    (stands : compiler.Stands law node before handle) (kept : Forest.Kept before after) :
    compiler.Stands law node after handle := by
  intro bench
  obtain ⟨rival, later, built, twin⟩ := stands bench
  exact ⟨rival, later, built, twin.kept kept (Forest.Kept.refl _)⟩

theorem Knows.kept {siblings : List Node} {known : List (String × Handle)} {before after : Forest}
    (knows : compiler.Knows law siblings known before) (kept : Forest.Kept before after) :
    compiler.Knows law siblings known after := by
  intro entry member
  obtain ⟨node, isSibling, text, stands⟩ := knows entry member
  exact ⟨node, isSibling, text, stands.kept kept⟩

theorem Knows.fresh {siblings : List Node} {known : List (String × Handle)} {forest : Forest}
    (knows : compiler.Knows law siblings known forest) {node : Node} (member : node ∈ siblings)
    {handle : Handle} (stands : compiler.Stands law node forest handle) :
    compiler.Knows law siblings ((node.text, handle) :: known) forest :=
  List.forall_mem_cons.mpr ⟨⟨node, member, rfl, stands⟩, knows⟩

/-- A tree that is built is planted, whether or not it is shared. -/
theorem build_planted {breaks : Error → Prop} (supplies : compiler.index.Supplies law breaks)
    (builtIn : compiler.registry.BuiltIn) (shared : Bool) {node : Node}
    {bench after : Workbench} {handle : Handle}
    (built : ({ compiler with shareNodes := shared } : Compiler).build node bench =
      .ok handle after) : ∃ offer, Forest.Planted law offer bench.forest handle after.forest := by
  obtain ⟨offer, _, planted⟩ := (@build_plants { compiler with shareNodes := shared } law breaks
    supplies builtIn node bench).of_ok built
  exact ⟨offer, planted⟩

mutual

/-- A tree that is built with sharing has the tree that it has without. -/
theorem build_twins {breaks : Error → Prop} (rests : law.Rests) (sure : ∀ cause, ¬law.Fails cause)
    (supplies : compiler.index.Supplies law breaks) (builtIn : compiler.registry.BuiltIn) :
    (node : Node) → node.Distinct → (bench rival : Workbench) →
    (compiler.sharing.build node).Agrees (compiler.apart.build node) bench rival
      fun handle after other later => Forest.Twin law after.forest handle later.forest other
  | ⟨operator, parameters, children⟩, distinct, bench, rival => by
    have inside : (∀ child ∈ children, child.Distinct) ∧
        ∀ first ∈ children, ∀ second ∈ children, first.text = second.text → first = second := by
      cases distinct with
      | intro _ inner telling => exact ⟨inner, telling⟩
    have siblings := @buildChildren_twins breaks rests sure supplies builtIn children children
      (fun _ member => member) inside.1 inside.2 bench rival [] (List.forall_mem_nil _) []
    have builds : (compiler.sharing.build ⟨operator, parameters, children⟩).Agrees
        (compiler.apart.build ⟨operator, parameters, children⟩) bench rival
        fun handle after other later => after.forest.unfold handle = later.forest.unfold other := by
      rw [build, build]
      apply siblings.bind
      rintro handles after others later ran ranOther ⟨_, _, all⟩
      obtain ⟨below, offers, starts, _, planted⟩ :=
        (@buildChildren_plants compiler.sharing law breaks supplies builtIn children _ _ _ _ _ bench
          (Forest.plantedAll_nil bench.forest) _ _ (filed_nil _)).of_ok ran
      obtain ⟨belowOther, offersOther, startsOther, _, plantedOther⟩ :=
        (@buildChildren_plants compiler.apart law breaks supplies builtIn children _ _ _ _ _ rival
          (Forest.plantedAll_nil rival.forest) _ _ (filed_nil _)).of_ok ranOther
      rw [List.nil_append, List.nil_append] at planted plantedOther
      have same : handles.map after.forest.unfold = others.map later.forest.unfold := by
        rw [← List.forall₂_eq_eq_eq, List.forall₂_map_left_iff, List.forall₂_map_right_iff]
        exact all.imp fun _ _ twin => twin.same
      apply Step.agrees_behind (allocate_run after) (allocate_run later)
      let node : Node := ⟨operator, parameters, children⟩
      let request : BuildRequest := ⟨node, node.signature, handles, compiler.index,
        after.context.allocate.1, compiler.scorer⟩
      have rooted := @Forest.registry_alike law compiler.registry builtIn request _ _ _ _ _ _ _ _ _
        _ _ rests sure planted plantedOther same later.context.allocate.1
      apply (Step.agrees_onPart rooted).bind
      rintro handle _ other _ _ _ ⟨forest, forestOther, rfl, rfl, tree⟩
      obtain ⟨last, seeded⟩ := compiler.sharing.seedBound_run children handle
        ⟨forest, after.context.allocate.2⟩
      obtain ⟨lastOther, seededOther⟩ := compiler.apart.seedBound_run children other
        ⟨forestOther, later.context.allocate.2⟩
      refine Step.agrees_ok (Step.bind_ok _ seeded) (Step.bind_ok _ seededOther) ?_
      rw [seedBound_eq_ok seeded, seedBound_eq_ok seededOther]
      exact tree
    apply builds.imp
    intro handle after other later built ran same
    obtain ⟨_, planted⟩ := build_planted supplies builtIn true built
    obtain ⟨_, plantedOther⟩ := build_planted supplies builtIn false ran
    exact ⟨planted.rooted, plantedOther.rooted, same⟩

theorem buildChildren_twins {breaks : Error → Prop} (rests : law.Rests)
    (sure : ∀ cause, ¬law.Fails cause) (supplies : compiler.index.Supplies law breaks)
    (builtIn : compiler.registry.BuiltIn) : (children : List Node) → {siblings : List Node} →
    (∀ child ∈ children, child ∈ siblings) → (∀ child ∈ children, child.Distinct) →
    (∀ first ∈ siblings, ∀ second ∈ siblings, first.text = second.text → first = second) →
    {bench rival : Workbench} → {known : List (String × Handle)} →
    compiler.Knows law siblings known bench.forest → (built : List (String × Handle)) →
    (compiler.sharing.buildChildren known children).Agrees
      (compiler.apart.buildChildren built children) bench rival
      fun handles after others later =>
        Forest.Kept bench.forest after.forest ∧ Forest.Kept rival.forest later.forest ∧
          List.Forall₂ (fun handle other => Forest.Twin law after.forest handle later.forest other)
            handles others
  | [], _, _, _, _, bench, rival, _, _, _ => by
    exact Step.agrees_ok rfl rfl ⟨Forest.Kept.refl _, Forest.Kept.refl _, .nil⟩
  | child :: children, siblings, part, distinct, telling, bench, rival, known, knows, built => by
    obtain ⟨isSibling, others⟩ := List.forall_mem_cons.mp part
    obtain ⟨here, inside⟩ := List.forall_mem_cons.mp distinct
    rw [buildChildren, buildChildren, show compiler.sharing.shareNodes = true from rfl,
      show compiler.apart.shareNodes = false from rfl, if_pos rfl, if_neg Bool.false_ne_true]
    dsimp only
    cases held : known.lookup child.text with
    | some handle =>
        -- The child is known, and compiling it by itself gives what it is known by.
        obtain ⟨_, _, split, _⟩ := List.lookup_eq_some_iff.mp held
        obtain ⟨node, isNode, text, stands⟩ := knows (child.text, handle) (by simp [split])
        cases telling node isNode child isSibling text
        obtain ⟨other, later, alone, twin⟩ := stands rival
        obtain ⟨_, planted⟩ := build_planted supplies builtIn false alone
        apply Step.agrees_beside alone
        apply (buildChildren_twins rests sure supplies builtIn children others inside telling knows
          _).bind
        rintro handles after rest final _ _ ⟨kept, keptOther, all⟩
        exact Step.agrees_ok rfl rfl
          ⟨kept, planted.kept.trans keptOther, .cons (twin.kept kept keptOther) all⟩
    | none =>
        apply (build_twins rests sure supplies builtIn child here bench rival).bind
        intro handle middle other between begun alone twin
        obtain ⟨_, planted⟩ := build_planted supplies builtIn true begun
        obtain ⟨_, plantedOther⟩ := build_planted supplies builtIn false alone
        have stands : compiler.Stands law child middle.forest handle :=
          fun spare => (build_twins rests sure supplies builtIn child here bench spare).of_ok begun
        have knowsAll := (knows.kept planted.kept).fresh isSibling stands
        apply (buildChildren_twins rests sure supplies builtIn children others inside telling
          knowsAll _).bind
        rintro handles after rest final _ _ ⟨kept, keptOther, all⟩
        exact Step.agrees_ok rfl rfl ⟨planted.kept.trans kept, plantedOther.kept.trans keptOther,
          .cons (twin.kept kept keptOther) all⟩

end

/-- Where siblings with one text are one tree, a query that is compiled into an empty arena with
sharing and one that is compiled without succeed or fail alike.  Their roots show the same from
the start, and give the same answers to any calls. -/
theorem compile_twins {interval : Nat} {calls : List Index.Call}
    (produced : Index.Produced interval calls compiler.index)
    (builtIn : compiler.registry.BuiltIn) {node : Node} (distinct : node.Distinct)
    (bench rival : Workbench) (arena : Arena) :
    (compiler.sharing.compile node Arena.empty).Agrees (compiler.apart.compile node arena) bench
      rival fun shared after plain later =>
        after.forest.face shared.1 = later.forest.face plain.1 ∧
          ∀ calls, Forest.Call.trace shared.1 calls after.forest =
            Forest.Call.trace plain.1 calls later.forest := by
  have twins := build_twins Leaf.Law.stored_rests (fun _ => id) produced.serves.supplies builtIn
    node distinct bench rival
  have fresh : compiler.sharing.shareNodes = true → Arena.empty.get? node.text = none :=
    fun _ => rfl
  have freshOther : compiler.apart.shareNodes = true → arena.get? node.text = none :=
    fun impossible => nomatch impossible
  unfold Step.Agrees at twins ⊢
  rw [compile_fresh fresh, compile_fresh freshOther]
  cases built : compiler.sharing.build node bench <;>
    cases ran : compiler.apart.build node rival <;> rw [built, ran] at twins
  · rename_i handle after other later
    obtain ⟨_, planted⟩ := build_planted produced.serves.supplies builtIn true built
    obtain ⟨_, plantedOther⟩ := build_planted produced.serves.supplies builtIn false ran
    have here := planted.poised.at_front (Nat.zero_le _)
    have there := plantedOther.poised.at_front (Nat.zero_le _)
    exact ⟨Forest.face_alike here there twins.same, fun calls =>
      Forest.Call.trace_alike Leaf.Law.stored_rests (fun _ => id) here there twins.same calls⟩
  · exact twins.elim
  · exact twins.elim
  · exact twins

end Compiler

namespace Example

theorem twice_distinct : twice.Distinct := by
  have leaf : (Node.term "a").Distinct :=
    .intro _ (List.forall_mem_nil _) (List.forall_mem_nil _)
  have only : ∀ child ∈ twice.children, child = Node.term "a" :=
    List.forall_mem_cons.mpr ⟨rfl, List.forall_mem_cons.mpr ⟨rfl, List.forall_mem_nil _⟩⟩
  refine .intro twice ?_ ?_
  · intro child member
    rw [only child member]
    exact leaf
  · intro first isFirst second isSecond _
    exact (only first isFirst).trans (only second isSecond).symm

end Example

namespace Compiler

/-- Two siblings that are one cursor under their parent when they are shared. -/
theorem compile_twins_twice :
    let compiler : Compiler := ⟨Example.index, Example.registry, none, "", true⟩
    let bench : Workbench := ⟨Forest.empty, ScoringContext.new⟩
    Index.Produced 1 Example.calls compiler.index ∧ compiler.registry.BuiltIn ∧
      Example.twice.Distinct ∧ ∃ shared after plain later,
        compiler.sharing.compile Example.twice Arena.empty bench = .ok shared after ∧
        compiler.apart.compile Example.twice Arena.empty bench = .ok plain later ∧
        after.forest.cursors.size = 2 ∧
        after.forest.face shared.1 = later.forest.face plain.1 ∧
        ∀ calls, Forest.Call.trace shared.1 calls after.forest =
          Forest.Call.trace plain.1 calls later.forest := by
  intro compiler bench
  have builtIn : compiler.registry.BuiltIn := Registry.withOverrides_builtIn _
  have runs : Step.evaluate (do
      let _ ← compiler.sharing.compile Example.twice Arena.empty
      pure (decide ((← get).forest.cursors.size = 2))) bench = .ok true := by cbv
  obtain ⟨_, run⟩ := Step.evaluate_eq_ok runs
  obtain ⟨shared, after, compiled, run⟩ := Step.bind_eq_ok run
  obtain ⟨_, _, same, run⟩ := Step.bind_eq_ok run
  cases same
  injection run with few
  have twins := compile_twins Example.produced builtIn Example.twice_distinct bench bench
    Arena.empty
  obtain ⟨plain, later, alone, same⟩ := twins.of_ok compiled
  exact ⟨Example.produced, builtIn, Example.twice_distinct, shared, after, plain, later, compiled,
    alone, of_decide_eq_true few, same⟩

end Compiler

end Concordance
