import Concordance.Proofs.Compile.Building
import Concordance.Proofs.Compile.Offers
import Concordance.Proofs.Cursor.Poised

/-!
# Compiling over any index

A query that is compiled becomes a tree of cursors that can be moved on, and it
offers what could be told before.  It is refused for the cause that could be told
too, or because a block of the index is broken.
-/

namespace Concordance

/-! ## Supplies -/

/-- An index whose leaves keep a law, if they can be opened at all. -/
structure Index.Supplies (index : Index) (law : Leaf.Law) (breaks : Error → Prop) : Prop where
  fails : ∀ cause, law.Fails cause → breaks cause
  unreadable : ∀ key cause, index.block? key = .error cause → breaks cause
  opens : ∀ key block withExtents, index.block? key = .ok (some block) →
    (∃ leaf, Leaf.open? key block withExtents = .ok leaf ∧ law.Stands 0 leaf ∧
      leaf.weight ≤ block.length ∧ leaf.reader.withExtents = withExtents) ∨
    ∃ cause, Leaf.open? key block withExtents = .error cause ∧ breaks cause

namespace Index

variable {index : Index} {key : Key}

theorem block?_cases (index : Index) (key : Key) :
    (index.contains key = false ∧ index.block? key = .ok none) ∨
      index.contains key = true ∧
        ((∃ block, index.block? key = .ok (some block)) ∨
          ∃ cause, index.block? key = .error cause ∧ cause.kind = .corruptIndex) := by
  unfold block? contains Dictionary.contains
  cases held : index.keys.get? key with
  | none => exact .inl ⟨rfl, rfl⟩
  | some offset =>
      refine .inr ⟨rfl, ?_⟩
      dsimp only
      unfold blockAt
      dsimp only
      by_cases outside : index.blockStop key < offset ∨
          index.header.postingsLength.toNat < index.blockStop key
      · rw [if_pos outside]
        exact .inr ⟨_, rfl, rfl⟩
      · rw [if_neg outside]
        exact .inl ⟨_, rfl⟩

end Index

theorem Block.Layout.Proper.extents_le {layout : Layout} {bytes : List UInt8}
    (proper : layout.Proper bytes) : layout.extents.length ≤ bytes.length := by
  obtain ⟨_, front, table, _, _, whole, _⟩ := proper.adjacent
  rw [whole]
  simp only [List.length_append]
  omega

theorem Leaf.weight_le {leaf : Leaf} {block : List UInt8}
    (parsed : Block.Layout.parse block = .ok leaf.reader.layout) : leaf.weight ≤ block.length :=
  (Block.Layout.proper_of_parse parsed).extents_le

namespace Index

variable {index : Index}

/-- A block that is broken is corrupt, or its head runs over. -/
def Breaks (cause : Error) : Prop :=
  cause.kind = .corruptIndex ∨ ∃ block, Block.Layout.Overflows block cause

/-- Every index has leaves that can be moved on, whoever wrote it. -/
theorem supplies_any (index : Index) : index.Supplies Leaf.Law.any Breaks where
  fails _ := .inl
  unreadable key cause broken := by
    rcases index.block?_cases key with ⟨_, missing⟩ | ⟨_, ⟨block, known⟩ | ⟨_, same, kind⟩⟩
    · rw [missing] at broken
      cases broken
    · rw [known] at broken
      cases broken
    · rw [same] at broken
      cases broken
      exact .inl kind
  opens key block withExtents held := by
    rcases Leaf.open?_sound key block withExtents with
      ⟨leaf, opened, sound, parsed, mode⟩ | ⟨cause, refused, kind⟩
    · exact .inl ⟨leaf, opened, sound, Leaf.weight_le parsed, mode⟩
    · refine .inr ⟨cause, refused, ?_⟩
      rcases kind with corrupt | overflows
      · exact .inl corrupt
      · exact .inr ⟨block, overflows⟩

/-- The leaves of a writer's index never fail. -/
theorem Serves.supplies {interval : Nat} {contents : Contents}
    (serves : index.Serves interval contents) :
    index.Supplies Leaf.Law.stored fun _ => False where
  fails _ := id
  unreadable key cause broken := by
    cases held : contents key with
    | none =>
        rw [serves.missing key held] at broken
        cases broken
    | some postings =>
        rw [(serves.present key postings held).2] at broken
        cases broken
  opens key block withExtents given := by
    cases held : contents key with
    | none =>
        rw [serves.missing key held] at given
        cases given
    | some postings =>
        obtain ⟨stored, same⟩ := serves.present key postings held
        cases given.symm.trans same
        obtain ⟨leaf, opened, here⟩ := Leaf.open?_at key stored withExtents
        rcases Leaf.open?_sound key (Block.image interval postings) withExtents with
          ⟨_, again, sound, parsed, mode⟩ | ⟨_, refused, _⟩
        · cases opened.symm.trans again
          exact .inl ⟨leaf, opened, ⟨sound, interval, withExtents, postings, here⟩,
            Leaf.weight_le parsed, mode⟩
        · rw [opened] at refused
          cases refused

end Index

/-! ## Planting one cursor -/

namespace Forest

variable {law : Leaf.Law}

/-- A tree is where it was when cursors are added. -/
theorem Poised.kept {before after : Forest} {offered : Capabilities} {weight start floor : Nat}
    {handle : Handle} (poised : Poised law before offered weight start handle floor)
    (kept : Kept before after) : Poised law after offered weight start handle floor :=
  poised.congr kept.size fun place _ upTo =>
    kept.same place (Nat.lt_of_le_of_lt upTo poised.bound)

/-- A tree that keeps to an offer was built behind what a forest held before. -/
structure Planted (law : Leaf.Law) (offer : Offer) (before : Forest) (handle : Handle)
    (after : Forest) : Prop where
  poised : Poised law after offer.capabilities offer.weight before.cursors.size handle 0
  kept : Kept before after

/-- The trees of several children stand behind what a forest held before. -/
structure PlantedAll (law : Leaf.Law) (children : List Offer) (before : Forest)
    (handles : List Handle) (after : Forest) (offers : Handle → Offer) (starts : Handle → Nat) :
    Prop where
  offered : handles.map offers = children
  poised : ∀ child ∈ handles,
    Poised law after (offers child).capabilities (offers child).weight (starts child) child 0
  behind : ∀ child ∈ handles, before.cursors.size ≤ starts child
  apart : ∀ first ∈ handles, ∀ second ∈ handles,
    first = second ∨ first.index < starts second ∨ second.index < starts first
  kept : Kept before after

theorem plantedAll_nil (forest : Forest) :
    PlantedAll law [] forest [] forest (fun _ => ⟨Capabilities.none, 0⟩) (fun _ => 0) :=
  ⟨rfl, List.forall_mem_nil _, List.forall_mem_nil _, List.forall_mem_nil _, Kept.refl forest⟩

namespace PlantedAll

variable {children : List Offer} {before middle after : Forest} {handles : List Handle}
  {handle : Handle} {offers : Handle → Offer} {starts : Handle → Nat}

/-- The trees of the others stand before one that is built behind them. -/
theorem clear {offer : Offer}
    (planted : PlantedAll law children before handles middle offers starts)
    (tree : Planted law offer middle handle after) :
    ∀ child ∈ handles, child.index < middle.cursors.size ∧ child ≠ handle :=
  clear_of_bounds (fun child member => (planted.poised child member).bound) tree.poised.start_le

/-- One more child is a tree of its own behind the trees of the others. -/
theorem snoc {offer : Offer} (planted : PlantedAll law children before handles middle offers starts)
    (tree : Planted law offer middle handle after) :
    PlantedAll law (children ++ [offer]) before (handles ++ [handle]) after
      (fun other => if other = handle then offer else offers other)
      (fun other => if other = handle then middle.cursors.size else starts other) := by
  have clear := planted.clear tree
  constructor
  · rw [map_snoc clear, planted.offered]
  · exact forall_mem_snoc clear offers offer
      (fun offer start child => Poised law after offer.capabilities offer.weight start child 0)
      (fun child member => (planted.poised child member).kept tree.kept) tree.poised
  · exact forall_mem_snoc clear offers offer (fun _ start _ => before.cursors.size ≤ start)
      planted.behind planted.kept.size
  · exact apart_snoc clear planted.apart
  · exact planted.kept.trans tree.kept

/-- One more child can be a tree that stands already. -/
theorem again (planted : PlantedAll law children before handles after offers starts)
    (member : handle ∈ handles) :
    PlantedAll law (children ++ [offers handle]) before (handles ++ [handle]) after offers
      starts := by
  have among : ∀ child ∈ handles ++ [handle], child ∈ handles :=
    List.forall_mem_append.mpr ⟨fun _ => id, List.forall_mem_singleton.mpr member⟩
  constructor
  · rw [List.map_append, planted.offered, List.map_singleton]
  · exact fun child isChild => planted.poised child (among child isChild)
  · exact fun child isChild => planted.behind child (among child isChild)
  · exact fun first isFirst second isSecond =>
      planted.apart first (among first isFirst) second (among second isSecond)
  · exact planted.kept

theorem capabilities (planted : PlantedAll law children before handles middle offers starts)
    {child : Handle} (member : child ∈ handles) :
    middle.capabilities child = (offers child).capabilities :=
  (planted.poised child member).whole.capabilities

theorem cover_iff (planted : PlantedAll law children before handles middle offers starts)
    {needed : Capabilities} :
    (∀ child ∈ handles, (middle.capabilities child).covers needed = true) ↔
      ∀ child ∈ children, child.capabilities.covers needed = true := by
  rw [← planted.offered, List.forall_mem_map]
  refine forall₂_congr fun child member => ?_
  rw [planted.capabilities member]

theorem length_eq (planted : PlantedAll law children before handles middle offers starts) :
    handles.length = children.length := by
  rw [← planted.offered, List.length_map]

theorem nil_iff (planted : PlantedAll law children before handles middle offers starts) :
    handles = [] ↔ children = [] := by
  rw [← planted.offered, List.map_eq_nil_iff]

end PlantedAll

theorem require_error {forest : Forest} {operator : String} {needed : Capabilities}
    {handles : List Handle} {cause : Error}
    (refused : forest.require operator needed handles = .error cause) :
    cause.kind = .unsupportedNode := by
  induction handles with
  | nil => cases refused
  | cons first handles induction =>
      rw [require] at refused
      by_cases offers : (forest.capabilities first).covers needed = true
      · rw [if_pos offers] at refused
        exact induction refused
      · rw [if_neg offers] at refused
        cases refused
        rfl

theorem checkChildren_error {forest : Forest} {combination : Combination} {handles : List Handle}
    {cause : Error} (refused : forest.checkChildren combination handles = .error cause) :
    cause.kind = .unsupportedNode := by
  cases handles with
  | nil =>
      cases refused
      rfl
  | cons first handles => exact require_error refused

/-- Planted children are siblings where a combination can be built over them. -/
theorem PlantedAll.siblings {children : List Offer} {before middle : Forest}
    {handles : List Handle} {offers : Handle → Offer} {starts : Handle → Nat}
    (planted : PlantedAll law children before handles middle offers starts)
    {combination : Combination} (checked : middle.checkChildren combination handles = .ok ()) :
    Siblings combination handles (fun child => (offers child).capabilities) starts
      before.cursors.size middle.cursors.size := by
  refine ⟨fun child member => ?_, fun child member =>
    ⟨planted.behind child member, (planted.poised child member).bound⟩, planted.apart⟩
  rw [← planted.capabilities member]
  exact (checkChildren_eq_ok.mp checked).2 child member

/-- A cursor is built as an outcome says, unless a block is broken. -/
def Plants (law : Leaf.Law) (breaks : Error → Prop) (outcome : Except ErrorKind Offer)
    (before : Forest) (step : Step Forest Handle) (forest : Forest) : Prop :=
  step.Ends forest
    (fun handle after => ∃ offer, outcome = .ok offer ∧ Planted law offer before handle after)
    (fun cause => breaks cause ∨ outcome = .error cause.kind)

section Parents

variable {breaks : Error → Prop} {children : List Offer} {before middle : Forest}
  {handles : List Handle} {key : String} {offers : Handle → Offer} {starts : Handle → Nat}
  (planted : PlantedAll law children before handles middle offers starts)

include planted

theorem addComposite_plants (fails : ∀ cause, law.Fails cause → breaks cause)
    (combination : Combination) :
    Plants law breaks (combination.offer children) before
      (addComposite key combination handles) middle := by
  unfold addComposite
  apply Step.Ends.behind (Step.get_run middle)
  cases checked : middle.checkChildren combination handles with
  | error cause =>
      refine Step.ends_failed rfl (.inr ?_)
      rw [checkChildren_error checked]
      refine if_neg fun allowed => ?_
      have granted := checkChildren_eq_ok.mpr
        ⟨mt planted.nil_iff.mp allowed.1, planted.cover_iff.mpr allowed.2⟩
      rw [checked] at granted
      cases granted
  | ok =>
      obtain ⟨occupied, offered⟩ := checkChildren_eq_ok.mp checked
      have siblings := planted.siblings checked
      have weight : weightOf (fun child => (offers child).weight) handles =
          (children.map Offer.weight).sum := by
        rw [← planted.offered, List.map_map]
        rfl
      have outcome : combination.offer children =
          .ok ⟨combination.capabilities, (children.map Offer.weight).sum⟩ :=
        if_pos ⟨mt planted.nil_iff.mpr occupied, planted.cover_iff.mp offered⟩
      apply Step.Ends.behind (Step.ofExcept_run rfl middle)
      refine ((seek_poised (moveTo_drives _) siblings fun child member =>
        ⟨0, Nat.le_refl _, planted.poised child member⟩).imp (fun _ _ => id)
          (fun cause failed => .inl (fails cause failed))).bind ?_
      rintro first sought ⟨outside, ended⟩
      let parent : Composite := ⟨key, combination, handles, first⟩
      have pushed := kept_push sought (.composite parent)
      have grown := Nat.le_trans planted.kept.size (Nat.le_of_eq outside.size.symm)
      refine Step.ends_done (add_run _ _) ⟨_, outcome, ?_,
        (planted.kept.outside outside).trans pushed⟩
      exact @Sought.poised _ _ _ _ _ _ _ _ _ _ parent ended (outside.size ▸ siblings)
        (Nat.le_of_eq weight) grown (lt_size_push sought _) (cursor_push_self sought _)
        fun child _ floor poised => poised.kept pushed

theorem addFeature_plants (estimator : EstimatorId) (scorer : String) :
    Plants law breaks (Feature.offer children) before
      (addFeature key handles estimator scorer) middle := by
  have length := planted.length_eq
  unfold addFeature
  split
  · rename_i child
    apply Step.Ends.behind (Step.get_run middle)
    cases checked : middle.require "feature" Capabilities.onlyCount [child] with
    | error cause =>
        refine Step.ends_failed rfl (.inr ?_)
        rw [require_error checked]
        refine if_neg fun allowed => ?_
        have granted := (@require_eq_ok _ "feature").mpr (planted.cover_iff.mpr allowed.2)
        rw [checked] at granted
        cases granted
    | ok =>
        have offered := require_eq_ok.mp checked
        have only := List.mem_cons_self (a := child) (l := [])
        have counts : (offers child).capabilities.count = true := by
          rw [← planted.capabilities only]
          exact Capabilities.covers_count (offered child only) rfl
        have pushed := kept_push middle (.feature ⟨key, child, estimator, scorer⟩)
        have poised := planted.poised child only
        apply Step.Ends.behind (Step.ofExcept_run rfl middle)
        refine Step.ends_done (add_run _ _) ⟨⟨Capabilities.onlyEstimator, 0⟩,
          if_pos ⟨length.symm, planted.cover_iff.mp offered⟩, ?_, planted.kept.trans pushed⟩
        exact .feature (lt_size_push middle _) (cursor_push_self middle _) poised.bound counts
          ((poised.kept pushed).widen (planted.behind child only))
  · rename_i others
    refine Step.ends_failed rfl (.inr (if_neg fun allowed => ?_))
    obtain ⟨child, same⟩ := List.length_eq_one_iff.mp (length.trans allowed.1)
    exact others child same

end Parents

theorem planted_null (forest : Forest) (key : String) (weight : Nat) :
    Planted law ⟨Capabilities.allButEstimator, weight⟩ forest ⟨forest.cursors.size⟩
      (forest.push (.null key)) :=
  ⟨.null (Nat.le_refl _) (lt_size_push forest _) (cursor_push_self forest _),
    kept_push forest _⟩

theorem Planted.of_kept {offer : Offer} {before middle after : Forest} {handle : Handle}
    (planted : Planted law offer middle handle after) (kept : Kept before middle) :
    Planted law offer before handle after :=
  ⟨planted.poised.widen kept.size, kept.trans planted.kept⟩

/-- A leaf offers its extents on request. -/
theorem addSource?_plants {index : Index} {breaks : Error → Prop}
    (supplies : index.Supplies law breaks) (key : Key) (withExtents : Bool) (forest : Forest) :
    (addSource? index key withExtents).Ends forest
      (fun found after =>
        match found with
        | some handle => Planted law (index.offer key withExtents) forest handle after
        | none => index.contains key = false ∧ after = forest)
      breaks := by
  unfold addSource?
  rcases index.block?_cases key with
    ⟨missing, none⟩ | ⟨present, ⟨block, held⟩ | ⟨cause, broken, _⟩⟩
  · apply Step.Ends.behind (Step.ofExcept_run none forest)
    exact Step.ends_done rfl ⟨missing, rfl⟩
  · apply Step.Ends.behind (Step.ofExcept_run held forest)
    dsimp only
    unfold addLeaf
    rcases supplies.opens key block withExtents held with
      ⟨leaf, opened, stands, light, mode⟩ | ⟨cause, refused, isBroken⟩
    · have same : leaf.capabilities = (index.offer key withExtents).capabilities := by
        unfold Leaf.capabilities Index.offer
        rw [mode, present]
        cases withExtents <;> rfl
      have bulk : (index.offer key withExtents).weight = block.length := by
        rw [Index.offer, Index.bulk, held]
      have pushed := kept_push forest (.leaf leaf)
      rw [opened]
      refine Step.ends_done rfl ⟨same ▸ ?_, pushed⟩
      exact .leaf (Nat.le_refl _) (lt_size_push forest _) (cursor_push_self forest _) stands
        (bulk ▸ light)
    · rw [refused]
      exact Step.ends_failed rfl isBroken
  · rw [broken]
    exact Step.ends_failed rfl (supplies.unreadable key cause broken)

end Forest

/-! ## Planting a query -/

namespace Forest

variable {law : Leaf.Law} {breaks : Error → Prop}

/-- An implementation of the library builds what it offers. -/
theorem implementation_plants {implementation : Implementation} {request : BuildRequest}
    {children : List Offer} {before middle : Forest} {offers : Handle → Offer}
    {starts : Handle → Nat} (supplies : request.index.Supplies law breaks)
    (library : ∀ build, implementation ≠ .custom build)
    (planted : PlantedAll law children before request.children middle offers starts)
    (length : request.children.length = request.node.children.length) :
    Plants law breaks (implementation.offer request.index request.node children) before
      (implementation.build request) middle := by
  cases implementation with
  | source withExtents =>
      rcases request.leafKey_cases with ⟨names, known⟩ | ⟨nameless, cause, refused, kind⟩
      · apply Step.Ends.behind (Step.ofExcept_run known middle)
        have sourced := addSource?_plants supplies (Key.ofText request.node.leafKey) withExtents
          middle
        refine (sourced.imp (fun _ _ => id) (fun cause => .inl)).bind ?_
        rintro (_ | handle) after found
        · obtain ⟨missing, rfl⟩ := found
          have same : request.index.offer (Key.ofText request.node.leafKey) withExtents =
              ⟨Capabilities.allButEstimator,
                request.index.bulk (Key.ofText request.node.leafKey)⟩ := by
            unfold Index.offer
            rw [missing]
            rfl
          refine Step.ends_done (add_run _ _) ⟨_, if_pos names, ?_⟩
          rw [same]
          exact (planted_null after _ _).of_kept planted.kept
        · exact Step.ends_done rfl ⟨_, if_pos names, found.of_kept planted.kept⟩
      · rw [Implementation.build, refused]
        refine Step.ends_failed rfl (.inr ?_)
        rw [kind]
        exact if_neg nameless
  | window order =>
      rcases BuildRequest.windowWidth_cases order length with
        ⟨asks, known⟩ | ⟨wrong, cause, refused, kind⟩
      · apply Step.Ends.behind (Step.ofExcept_run known middle)
        rw [Implementation.offer, if_pos asks]
        exact addComposite_plants planted supplies.fails _
      · rw [Implementation.build, refused]
        refine Step.ends_failed rfl (.inr ?_)
        rw [kind]
        exact if_neg wrong
  | synonym => exact addComposite_plants planted supplies.fails .synonym
  | conjunction => exact addComposite_plants planted supplies.fails .conjunction
  | union => exact addComposite_plants planted supplies.fails .union
  | combine => exact addComposite_plants planted supplies.fails .combine
  | feature => exact addFeature_plants planted request.estimator request.scorer
  | null =>
      exact Step.ends_done rfl ⟨_, rfl, (planted_null middle _ 0).of_kept planted.kept⟩
  | custom build => exact absurd rfl (library build)

/-- A request to a registry of built-in implementations. -/
theorem registry_plants {registry : Registry} (builtIn : registry.BuiltIn) {request : BuildRequest}
    {children : List Offer} {before middle : Forest} {offers : Handle → Offer}
    {starts : Handle → Nat} (supplies : request.index.Supplies law breaks)
    (planted : PlantedAll law children before request.children middle offers starts)
    (length : request.children.length = request.node.children.length) :
    Plants law breaks
      (match registry.resolve? request.node.operator with
        | some implementation => implementation.offer request.index request.node children
        | none => .error .unsupportedNode)
      before (registry.build request) middle := by
  cases resolved : registry.resolve? request.node.operator with
  | none =>
      obtain ⟨cause, refused, kind⟩ := Registry.build_unresolved resolved middle
      exact Step.ends_failed refused (.inr (congrArg Except.error kind.symm))
  | some implementation =>
      rw [Registry.build_resolved resolved]
      exact implementation_plants supplies (builtIn _ _ resolved) planted length

end Forest

theorem lookup_map {α β : Type} (view : α → β) (entries : List (String × α)) (text : String) :
    (entries.map fun entry => (entry.1, view entry.2)).lookup text =
      (entries.lookup text).map view := by
  induction entries with
  | nil => rfl
  | cons entry entries induction =>
      rw [List.map_cons, List.lookup_cons, List.lookup_cons, induction]
      cases text == entry.1 <;> rfl

namespace Compiler

variable {compiler : Compiler} {law : Leaf.Law} {breaks : Error → Prop}

theorem length_offers {registry : Registry} {shared : Bool} {index : Index} {children : List Node}
    {known : List (String × Offer)} {below : List Offer}
    (offered : Node.offers registry shared index known children = .ok below) :
    below.length = children.length := by
  induction children generalizing known below with
  | nil =>
      cases offered
      rfl
  | cons child children induction =>
      rw [Node.offers] at offered
      split at offered
      · obtain ⟨later, rest, same⟩ := Step.ok_of_bind offered
        cases same
        rw [List.length_cons, List.length_cons, induction rest]
      · obtain ⟨first, _, offered⟩ := Step.ok_of_bind offered
        obtain ⟨later, rest, same⟩ := Step.ok_of_bind offered
        cases same
        rw [List.length_cons, List.length_cons, induction rest]

/-- The cursors that are known under some texts are among those of some children, and what
they offer is listed under the same texts. -/
structure Filed (known : List (String × Handle)) (earlier : List Handle)
    (offers : Handle → Offer) (listed : List (String × Offer)) : Prop where
  among : ∀ entry ∈ known, entry.2 ∈ earlier
  same : listed = known.map fun entry => (entry.1, offers entry.2)

theorem filed_nil (offers : Handle → Offer) : Filed [] [] offers [] :=
  ⟨List.forall_mem_nil _, rfl⟩

theorem Filed.fresh {known : List (String × Handle)} {earlier : List Handle}
    {offers : Handle → Offer} {listed : List (String × Offer)}
    (filed : Filed known earlier offers listed) {handle : Handle}
    (clear : ∀ child ∈ earlier, child ≠ handle) (text : String) (offer : Offer) :
    Filed ((text, handle) :: known) (earlier ++ [handle])
      (fun other => if other = handle then offer else offers other) ((text, offer) :: listed) := by
  constructor
  · intro entry member
    rcases List.mem_cons.mp member with rfl | later
    · exact List.mem_append_right _ List.mem_cons_self
    · exact List.mem_append_left _ (filed.among entry later)
  · rw [List.map_cons, if_pos rfl, filed.same]
    congr 1
    apply List.map_congr_left
    intro entry member
    rw [if_neg (clear entry.2 (filed.among entry member))]

theorem refused_bind {α β : Type} {first : Except ErrorKind α} {next : α → Except ErrorKind β}
    {cause : Error} (refused : breaks cause ∨ first = .error cause.kind) :
    breaks cause ∨ (first >>= next) = .error cause.kind := by
  rcases refused with broken | refused
  · exact .inl broken
  · rw [refused]
    exact .inr rfl

mutual

/-- A tree is built as could be told beforehand, unless a block is broken. -/
theorem build_plants (supplies : compiler.index.Supplies law breaks)
    (builtIn : compiler.registry.BuiltIn) : (node : Node) → (bench : Workbench) →
    (compiler.build node).Ends bench
      (fun handle after => ∃ offer,
        node.offer compiler.registry compiler.shareNodes compiler.index = .ok offer ∧
          Forest.Planted law offer bench.forest handle after.forest)
      (fun cause => breaks cause ∨
        node.offer compiler.registry compiler.shareNodes compiler.index = .error cause.kind)
  | ⟨operator, parameters, children⟩, bench => by
    have siblings := buildChildren_plants supplies builtIn children
      (Forest.plantedAll_nil bench.forest) (filed_nil _)
    rw [build, Node.offer]
    apply (siblings.imp (fun _ _ => id) fun _ => refused_bind).bind
    rintro handles middle ⟨below, offers, starts, known, planted⟩
    rw [List.nil_append, List.nil_append] at planted
    have length := planted.length_eq.trans (length_offers known)
    rw [known, Step.ok_bind]
    apply Step.Ends.behind (allocate_run middle)
    let node : Node := ⟨operator, parameters, children⟩
    let request : BuildRequest :=
      ⟨node, node.signature, handles, compiler.index, middle.context.allocate.1, compiler.scorer⟩
    have rooted := @Forest.registry_plants _ _ _ builtIn request _ _ _ _ _ supplies planted length
    apply (Step.ends_onPart rooted).bind
    rintro handle _ ⟨forest, ⟨offer, outcome, tree⟩, rfl⟩
    obtain ⟨last, seeded⟩ := compiler.seedBound_run children handle
      ⟨forest, middle.context.allocate.2⟩
    refine Step.ends_done (Step.bind_ok _ seeded) ⟨offer, outcome, ?_⟩
    rw [seedBound_eq_ok seeded]
    exact tree

theorem buildChildren_plants (supplies : compiler.index.Supplies law breaks)
    (builtIn : compiler.registry.BuiltIn) : (children : List Node) →
    {front : List Offer} → {before : Forest} → {earlier : List Handle} →
    {offers : Handle → Offer} → {starts : Handle → Nat} → {bench : Workbench} →
    (planted : Forest.PlantedAll law front before earlier bench.forest offers starts) →
    {known : List (String × Handle)} → {listed : List (String × Offer)} →
    (filed : Filed known earlier offers listed) →
    (compiler.buildChildren known children).Ends bench
      (fun handles after => ∃ below offers starts,
        Node.offers compiler.registry compiler.shareNodes compiler.index listed children =
          .ok below ∧
        Forest.PlantedAll law (front ++ below) before (earlier ++ handles) after.forest offers
          starts)
      (fun cause => breaks cause ∨
        Node.offers compiler.registry compiler.shareNodes compiler.index listed children =
          .error cause.kind)
  | [], front, before, earlier, offers, starts, bench, planted, known, listed, filed => by
    refine Step.ends_done rfl ⟨[], offers, starts, rfl, ?_⟩
    rw [List.append_nil, List.append_nil]
    exact planted
  | child :: children, front, before, earlier, offers, starts, bench, planted, known, listed,
      filed => by
    have found : (if compiler.shareNodes then listed.lookup child.text else none) =
        (if compiler.shareNodes then known.lookup child.text else none).map offers := by
      rw [filed.same, lookup_map]
      split <;> rfl
    rw [buildChildren, Node.offers, found]
    cases held : if compiler.shareNodes then known.lookup child.text else none with
    | some handle =>
        obtain ⟨_, isKnown⟩ := Option.ite_none_right_eq_some.mp held
        obtain ⟨_, _, split, _⟩ := List.lookup_eq_some_iff.mp isKnown
        have member := filed.among (child.text, handle) (by simp [split])
        have again := planted.again member
        have filedAgain : Filed known (earlier ++ [handle]) offers listed :=
          ⟨fun entry isEntry => List.mem_append_left _ (filed.among entry isEntry), filed.same⟩
        dsimp only [Option.map_some]
        have others := buildChildren_plants supplies builtIn children again filedAgain
        apply (others.imp (fun _ _ => id) fun _ => refused_bind).bind
        rintro handles after ⟨below, offers', starts', outcome, all⟩
        rw [List.append_assoc, List.append_assoc] at all
        rw [outcome]
        exact Step.ends_done rfl ⟨_, offers', starts', rfl, all⟩
    | none =>
        dsimp only [Option.map_none]
        have begun := build_plants supplies builtIn child bench
        apply (begun.imp (fun _ _ => id) fun _ => refused_bind).bind
        rintro handle middle ⟨offer, known, tree⟩
        have snoc := planted.snoc tree
        have fresh := filed.fresh (fun other member => (planted.clear tree other member).2)
          child.text offer
        have others := buildChildren_plants supplies builtIn children snoc fresh
        rw [known, Step.ok_bind]
        apply (others.imp (fun _ _ => id) fun _ => refused_bind).bind
        rintro handles after ⟨below, offers', starts', outcome, all⟩
        rw [List.append_assoc, List.append_assoc] at all
        rw [outcome]
        exact Step.ends_done rfl ⟨_, offers', starts', rfl, all⟩

end

end Compiler

end Concordance
