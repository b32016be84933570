import Concordance.Proofs.Compile.Presence
import Concordance.Proofs.Compile.Sharing
import Concordance.Proofs.Compile.Usable

/-!
# One cursor for each tree

An arena that starts empty holds one cursor for each text that was compiled with sharing on,
under a number that never changes, and it is the cursor of the first tree that had the text.
Trees with different texts have different cursors, since a tree that is built stands on new
cursors only: what the arena holds is never used again inside another tree.
-/

namespace Concordance

/-! ## New cursors -/

namespace Forest

/-- No cursor is taken away. -/
def Grows (before after : Forest) : Prop := before.cursors.size ≤ after.cursors.size

theorem Grows.conserved : Conserved Grows where
  refl _ := Nat.le_refl _
  trans _ _ _ := Nat.le_trans
  leaf forest handle _ _ _ _ := Nat.le_of_eq (size_put forest handle _).symm
  composite _ forest handle _ _ _ grows _ :=
    grows.trans (Nat.le_of_eq (size_put forest handle _).symm)

/-- A cursor that was not there before. -/
structure IsNew (before : Forest) (handle : Handle) (after : Forest) : Prop where
  behind : before.cursors.size ≤ handle.index
  inside : handle.index < after.cursors.size

theorem IsNew.widen {before first second after : Forest} {handle : Handle}
    (isNew : IsNew first handle second) (earlier : Grows before first)
    (later : Grows second after) : IsNew before handle after :=
  ⟨earlier.trans isNew.behind, Nat.lt_of_lt_of_le isNew.inside later⟩

/-- A way to build a cursor makes a new one or hands on one of the children. -/
structure Originates (children : List Handle) (step : Step Forest Handle) : Prop where
  grows : Conserves Grows step
  built : ∀ forest handle after, step forest = .ok handle after →
    handle ∈ children ∨ IsNew forest handle after

variable {children : List Handle}

theorem originates_add (cursor : Cursor) : Originates children (add cursor) where
  grows forest := Nat.le_of_lt (lt_size_push forest cursor)
  built forest handle after run := by
    cases run
    exact .inr ⟨Nat.le_refl _, lt_size_push forest cursor⟩

theorem originates_throw (cause : Error) : Originates children (throw cause) where
  grows := Grows.conserved.throw cause
  built _ _ _ impossible := nomatch impossible

/-- Whatever is done before adds cursors at most. -/
theorem Originates.behind {α : Type} {first : Step Forest α} {next : α → Step Forest Handle}
    (begun : Conserves Grows first) (later : ∀ value, Originates children (next value)) :
    Originates children (first >>= next) where
  grows := Grows.conserved.bind begun fun value => (later value).grows
  built forest handle after run := by
    obtain ⟨value, middle, begins, ends⟩ := Step.bind_eq_ok run
    refine ((later value).built middle handle after ends).imp_right fun isNew => ?_
    exact isNew.widen (begun.of_ok begins) (Nat.le_refl _)

theorem Originates.checked {α : Type} {result : Except Error α} {next : α → Step Forest Handle}
    (later : ∀ value, Originates children (next value)) :
    Originates children (Step.ofExcept result >>= next) :=
  .behind (Grows.conserved.ofExcept result) later

theorem addComposite_originates (key : String) (combination : Combination) (handles : List Handle) :
    Originates children (addComposite key combination handles) := by
  have conserved := Grows.conserved
  refine .behind conserved.get fun _ => .checked fun _ => ?_
  exact .behind (conserved.seek conserved.moveTo combination handles DocId.zero)
    fun _ => originates_add _

theorem addFeature_originates (key : String) (handles : List Handle) (estimator : EstimatorId)
    (scorer : String) : Originates children (addFeature key handles estimator scorer) := by
  unfold addFeature
  split
  · exact .behind Grows.conserved.get fun _ => .checked fun _ => originates_add _
  · exact originates_throw _

theorem addSource?_originates (index : Index) (key : Key) (withExtents : Bool) (name : String) :
    Originates children (do
      match ← addSource? index key withExtents with
      | some handle => pure handle
      | none => add (.null name)) := by
  unfold addSource? addLeaf
  simp only [bind_assoc]
  refine .checked fun block? => ?_
  cases block? with
  | none => exact originates_add _
  | some block =>
      simp only [bind_assoc]
      exact .checked fun leaf => originates_add _

end Forest

/-- Implementations from outside make a new cursor or hand on one of the children. -/
def Registry.Original (registry : Registry) : Prop :=
  ∀ operator build, registry.resolve? operator = some (.custom build) →
    ∀ request, Forest.Originates request.children (build request)

theorem Registry.BuiltIn.original {registry : Registry} (builtIn : registry.BuiltIn) :
    registry.Original :=
  fun operator build resolved => absurd rfl (builtIn operator _ resolved build)

namespace Forest

variable {request : BuildRequest}

theorem implementation_originates {implementation : Implementation}
    (custom : ∀ build, implementation = .custom build →
      ∀ request, Originates request.children (build request)) :
    Originates request.children (implementation.build request) := by
  cases implementation with
  | source withExtents =>
      exact .checked fun key => addSource?_originates request.index (Key.ofText key) withExtents key
  | window order => exact .checked fun width => addComposite_originates _ _ _
  | synonym => exact addComposite_originates _ .synonym _
  | conjunction => exact addComposite_originates _ .conjunction _
  | union => exact addComposite_originates _ .union _
  | combine => exact addComposite_originates _ .combine _
  | feature => exact addFeature_originates _ _ _ _
  | null => exact originates_add _
  | custom build => exact custom build rfl request

theorem registry_originates {registry : Registry} (original : registry.Original) :
    Originates request.children (registry.build request) := by
  cases resolved : registry.resolve? request.node.operator with
  | none =>
      have unknown := Registry.build_unresolved resolved
      refine ⟨fun forest => ?_, fun forest handle after run => ?_⟩
      · obtain ⟨_, refused, _⟩ := unknown forest
        exact (Step.endState_error refused).symm ▸ Grows.conserved.refl forest
      · obtain ⟨_, refused, _⟩ := unknown forest
        cases refused.symm.trans run
  | some implementation =>
      rw [Registry.build_resolved resolved]
      exact implementation_originates fun build custom => original _ build (custom ▸ resolved)

end Forest

namespace Compiler

section New

variable {compiler : Compiler} (original : compiler.registry.Original)

include original

theorem build_grows (node : Node) (bench : Workbench) :
    Forest.Grows bench.forest ((compiler.build node).endState bench).forest :=
  build_conserves Forest.Grows.conserved
    (fun _ _ => (Forest.registry_originates original).grows) node bench

theorem buildChildren_grows (known : List (String × Handle)) (children : List Node)
    {bench after : Workbench} {handles : List Handle}
    (built : compiler.buildChildren known children bench = .ok handles after) :
    Forest.Grows bench.forest after.forest := by
  rw [← Step.endState_ok built]
  exact buildChildren_conserves Forest.Grows.conserved
    (fun _ _ => (Forest.registry_originates original).grows) children known bench

mutual

/-- The root of a tree that is built is a new cursor. -/
theorem build_isNew :
    (node : Node) → {bench after : Workbench} → {handle : Handle} →
    (built : compiler.build node bench = .ok handle after) →
    Forest.IsNew bench.forest handle after.forest
  | ⟨operator, parameters, children⟩, bench, after, handle, built => by
    obtain ⟨_, middle, request, compiled, _, rfl, _, made⟩ := build_eq_ok built
    have originates := @Forest.registry_originates request _ original
    rcases originates.built _ _ _ made with handed | isNew
    · have areNew := buildChildren_areNew children (Forest.Grows.conserved.refl bench.forest)
        (by simp) compiled
      exact (areNew handle handed).widen (Nat.le_refl _) (originates.grows.of_ok made)
    · exact isNew.widen (buildChildren_grows original [] children compiled) (Nat.le_refl _)

/-- So are the cursors of its children, also where a sibling shares one. -/
theorem buildChildren_areNew {start : Forest} :
    (children : List Node) → {known : List (String × Handle)} → {bench after : Workbench} →
    {handles : List Handle} → (begun : Forest.Grows start bench.forest) →
    (areNew : ∀ entry ∈ known, Forest.IsNew start entry.2 bench.forest) →
    (built : compiler.buildChildren known children bench = .ok handles after) →
    ∀ handle ∈ handles, Forest.IsNew start handle after.forest
  | [], _, _, _, _, _, _, built => by
    cases built
    exact fun _ impossible => nomatch impossible
  | child :: children, known, bench, after, handles, begun, areNew, built => by
    rcases buildChildren_cons_eq_ok built with
      ⟨handle, others, _, held, compiled, rfl⟩ | ⟨root, middle, others, rooted, compiled, rfl⟩
    · obtain ⟨_, _, rfl, _⟩ := List.lookup_eq_some_iff.mp held
      have isNew := areNew (child.text, handle) (by simp)
      exact List.forall_mem_cons.mpr
        ⟨isNew.widen (Nat.le_refl _) (buildChildren_grows original _ children compiled),
          buildChildren_areNew children begun areNew compiled⟩
    · have onward : Forest.Grows bench.forest middle.forest :=
        Step.endState_ok rooted ▸ build_grows original child bench
      have isNew := (build_isNew child rooted).widen begun (Nat.le_refl _)
      have knownNew : ∀ entry ∈ (child.text, root) :: known,
          Forest.IsNew start entry.2 middle.forest :=
        List.forall_mem_cons.mpr
          ⟨isNew, fun entry member => (areNew entry member).widen (Nat.le_refl _) onward⟩
      exact List.forall_mem_cons.mpr
        ⟨isNew.widen (Nat.le_refl _) (buildChildren_grows original _ children compiled),
          buildChildren_areNew children (begun.trans onward) knownNew compiled⟩

end

end New

end Compiler

/-! ## Numbers -/

namespace Arena

/-- The cursor with a number. -/
def cursor? (arena : Arena) (number : Nat) : Option Handle :=
  (arena.entries[number]?).map (·.2)

variable {arena : Arena} {text : String} {handle : Handle}

/-- The cursor under a text is the one with the number of the text. -/
theorem get?_eq (arena : Arena) (text : String) :
    arena.get? text = (arena.number? text).bind arena.cursor? := by
  rw [get?, Array.find?_eq_bind_findIdx?_getElem?, Option.map_bind]
  rfl

theorem exists_cursor? {number : Nat} (known : arena.number? text = some number) :
    ∃ handle, arena.cursor? number = some handle := by
  obtain ⟨inside, _⟩ := Array.findIdx?_eq_some_iff_getElem.mp known
  exact ⟨_, congrArg (Option.map Prod.snd) (Array.getElem?_eq_getElem inside)⟩

/-- An arena with no text twice. -/
def Distinct (arena : Arena) : Prop := (arena.entries.toList.map Prod.fst).Nodup

theorem Distinct.get?_eq_some (distinct : arena.Distinct) :
    arena.get? text = some handle ↔ (text, handle) ∈ arena.entries := by
  refine ⟨mem_of_get?, fun member => ?_⟩
  have present : (arena.entries.find? fun entry => entry.1 == text).isSome = true :=
    Array.find?_isSome.mpr ⟨_, member, beq_self_eq_true text⟩
  obtain ⟨entry, found⟩ := Option.isSome_iff_exists.mp present
  have known : arena.get? text = some entry.2 := congrArg (Option.map Prod.snd) found
  have same : (text, entry.2) = (text, handle) :=
    List.inj_on_of_nodup_map distinct (Array.mem_toList_iff.mpr (mem_of_get? known))
      (Array.mem_toList_iff.mpr member) rfl
  rw [known, (Prod.mk.inj same).2]

theorem Distinct.insert (distinct : arena.Distinct) (fresh : arena.get? text = none)
    (handle : Handle) : (arena.insert text handle).Distinct := by
  unfold Distinct Arena.insert
  rw [Array.toList_push, List.map_append, List.nodup_append]
  refine ⟨distinct, List.nodup_singleton _, ?_⟩
  rintro _ member _ last rfl
  obtain ⟨⟨_, held⟩, inside, rfl⟩ := List.mem_map.mp member
  cases List.mem_singleton.mp last
  rw [distinct.get?_eq_some.mpr (Array.mem_toList_iff.mp inside)] at fresh
  cases fresh

/-- One arena holds all that another does, under the same numbers. -/
structure Extends (first later : Arena) : Prop where
  number : ∀ text number, first.number? text = some number → later.number? text = some number
  cursor : ∀ number handle, first.cursor? number = some handle →
    later.cursor? number = some handle

theorem Extends.refl (arena : Arena) : Extends arena arena :=
  ⟨fun _ _ known => known, fun _ _ known => known⟩

theorem Extends.trans {first second third : Arena} (here : Extends first second)
    (next : Extends second third) : Extends first third :=
  ⟨fun text number known => next.number text number (here.number text number known),
    fun number handle known => next.cursor number handle (here.cursor number handle known)⟩

theorem extends_insert (arena : Arena) (name : String) (handle : Handle) :
    Extends arena (arena.insert name handle) := by
  constructor
  · intro text number known
    unfold number? at known
    rw [number?, Arena.insert, Array.findIdx?_push, known]
    rfl
  · intro number held known
    obtain ⟨entry, found, rfl⟩ := Option.map_eq_some_iff.mp known
    obtain ⟨inside, _⟩ := Array.getElem?_eq_some_iff.mp found
    rw [cursor?, Arena.insert, Array.getElem?_push, if_neg (Nat.ne_of_lt inside), found]
    rfl

end Arena

/-! ## Compiling into one arena -/

/-- A tree to be compiled, with what it is compiled with. -/
structure Compilation where
  compiler : Compiler
  node : Node
  context : ScoringContext

/-- The cursors of an evaluation, and those of them that are kept for their texts. -/
structure Stock where
  arena : Arena
  forest : Forest

namespace Compilation

/-- Compile a tree.  Where it is refused the arena is left to the next call as it is. -/
def run (call : Compilation) (stock : Stock) : Except Error Handle × Stock :=
  match call.compiler.compile call.node stock.arena ⟨stock.forest, call.context⟩ with
  | .ok (handle, arena) after => (.ok handle, ⟨arena, after.forest⟩)
  | .error cause after => (.error cause, ⟨stock.arena, after.forest⟩)

/-- Compile trees one after the other.  Each call is listed with what came of it. -/
def runAll : List Compilation → Stock → List (Compilation × Except Error Handle) × Stock
  | [], stock => ([], stock)
  | call :: calls, stock =>
    let (outcome, middle) := call.run stock
    let (later, after) := runAll calls middle
    ((call, outcome) :: later, after)

/-- The text and the cursor of a call with sharing on that succeeded. -/
def shared? : Compilation × Except Error Handle → Option (String × Handle)
  | (call, .ok handle) =>
    if call.compiler.shareNodes then some (call.node.text, handle) else none
  | (_, .error _) => none

/-- The texts and cursors of all calls with sharing on that succeeded, the first one first. -/
def shared (ended : List (Compilation × Except Error Handle)) : List (String × Handle) :=
  ended.filterMap shared?

theorem shared_cons (made : Compilation × Except Error Handle)
    (later : List (Compilation × Except Error Handle)) :
    shared (made :: later) = (shared? made).toList ++ shared later := by
  rw [shared, List.filterMap_cons]
  cases shared? made <;> rfl

/-- What a call does to the arena. -/
inductive Leads (call : Compilation) (stock : Stock) : Except Error Handle → Stock → Prop where
  /-- The text was compiled before. -/
  | again {handle : Handle} (shares : call.compiler.shareNodes = true)
      (held : stock.arena.get? call.node.text = some handle) : Leads call stock (.ok handle) stock
  /-- The tree is built and kept. -/
  | kept {handle : Handle} {after : Workbench} (shares : call.compiler.shareNodes = true)
      (fresh : stock.arena.get? call.node.text = none)
      (built : call.compiler.build call.node ⟨stock.forest, call.context⟩ = .ok handle after) :
      Leads call stock (.ok handle) ⟨stock.arena.insert call.node.text handle, after.forest⟩
  /-- The tree is built for this call only. -/
  | apart {handle : Handle} {after : Workbench} (alone : call.compiler.shareNodes = false)
      (built : call.compiler.build call.node ⟨stock.forest, call.context⟩ = .ok handle after) :
      Leads call stock (.ok handle) ⟨stock.arena, after.forest⟩
  /-- The tree is refused. -/
  | refused {cause : Error} {after : Workbench}
      (failed : call.compiler.build call.node ⟨stock.forest, call.context⟩ =
        .error cause after) : Leads call stock (.error cause) ⟨stock.arena, after.forest⟩

theorem run_leads (call : Compilation) (stock : Stock) :
    call.Leads stock (call.run stock).1 (call.run stock).2 := by
  unfold run
  cases compiled : call.compiler.compile call.node stock.arena ⟨stock.forest, call.context⟩ with
  | error cause after => exact .refused (Compiler.compile_eq_error compiled)
  | ok given after =>
      obtain ⟨handle, arena⟩ := given
      rcases Compiler.compile_cases compiled with
        ⟨shares, held, rfl, rfl⟩ | ⟨fresh, built, rfl⟩
      · exact .again shares held
      · cases shares : call.compiler.shareNodes with
        | true => exact .kept shares (fresh shares) built
        | false => exact .apart shares built

/-- The arena holds the texts of the calls that shared and succeeded, each once, with the
cursors that these calls were given. -/
structure Holds (arena : Arena) (given : List (String × Handle)) : Prop where
  distinct : arena.Distinct
  members : ∀ entry, entry ∈ given ↔ entry ∈ arena.entries

theorem holds_empty : Holds Arena.empty [] := ⟨List.nodup_nil, fun _ => by simp [Arena.empty]⟩

namespace Holds

variable {arena : Arena} {given : List (String × Handle)} {text : String}

theorem again (holds : Holds arena given) {handle : Handle}
    (held : arena.get? text = some handle) : Holds arena (given ++ [(text, handle)]) := by
  refine ⟨holds.distinct, fun entry => ?_⟩
  have member := holds.distinct.get?_eq_some.mp held
  rw [List.mem_append, List.mem_singleton, holds.members]
  exact ⟨fun either => either.elim id fun same => same ▸ member, .inl⟩

theorem insert (holds : Holds arena given) (fresh : arena.get? text = none) (handle : Handle) :
    Holds (arena.insert text handle) (given ++ [(text, handle)]) := by
  refine ⟨holds.distinct.insert fresh handle, fun entry => ?_⟩
  rw [List.mem_append, List.mem_singleton, holds.members, Arena.insert, Array.mem_push]

/-- A call adds its text and its cursor to those that the arena holds, if it is to be shared. -/
theorem leads {call : Compilation} {stock after : Stock} {outcome : Except Error Handle}
    (holds : Holds stock.arena given) (leads : call.Leads stock outcome after) :
    Holds after.arena (given ++ (shared? (call, outcome)).toList) := by
  cases leads with
  | again shares held => simpa [shared?, shares] using holds.again held
  | kept shares fresh => simpa [shared?, shares] using holds.insert fresh _
  | apart alone => simpa [shared?, alone] using holds
  | refused => simpa [shared?] using holds

theorem runAll (calls : List Compilation) {stock : Stock} (holds : Holds stock.arena given) :
    Holds (Compilation.runAll calls stock).2.arena
      (given ++ shared (Compilation.runAll calls stock).1) := by
  induction calls generalizing stock given with
  | nil => simpa [Compilation.runAll, shared] using holds
  | cons call calls induction =>
      have later := induction (holds.leads (call.run_leads stock))
      rw [List.append_assoc] at later
      change Holds _ (given ++ shared ((call, (call.run stock).1) :: _))
      rwa [shared_cons]

theorem size (holds : Holds arena given) :
    arena.size = (given.map Prod.fst).dedup.length := by
  have same : ∀ text, text ∈ arena.entries.toList.map Prod.fst ↔
      text ∈ (given.map Prod.fst).dedup := by
    intro text
    simp [List.mem_dedup, holds.members]
  have permuted := (List.perm_ext_iff_of_nodup holds.distinct (List.nodup_dedup _)).mpr same
  simpa [Arena.size] using permuted.length_eq

/-- The first cursor that was given out for a text is the one that the arena holds. -/
theorem get?_eq_lookup (holds : Holds arena given) (text : String) :
    arena.get? text = given.lookup text := by
  cases first : given.lookup text with
  | none =>
      refine Option.eq_none_iff_forall_ne_some.mpr fun handle held => ?_
      have member := (holds.members _).mpr (holds.distinct.get?_eq_some.mp held)
      have absent := List.lookup_eq_none_iff.mp first _ member
      simp at absent
  | some handle =>
      obtain ⟨_, _, rfl, _⟩ := List.lookup_eq_some_iff.mp first
      exact holds.distinct.get?_eq_some.mpr ((holds.members _).mp (by simp))

theorem cursor_eq (holds : Holds arena given) {first second : String × Handle}
    (inFirst : first ∈ given) (inSecond : second ∈ given) (same : first.1 = second.1) :
    first.2 = second.2 := by
  have held := holds.distinct.get?_eq_some.mpr ((holds.members first).mp inFirst)
  rw [same, holds.distinct.get?_eq_some.mpr ((holds.members second).mp inSecond)] at held
  exact (Option.some.inj held).symm

end Holds

/-- The cursors in the arena are different ones, and they are there. -/
structure Apart (stock : Stock) : Prop where
  inside : ∀ entry ∈ stock.arena.entries, entry.2.index < stock.forest.cursors.size
  different : ∀ first ∈ stock.arena.entries, ∀ second ∈ stock.arena.entries,
    first.2 = second.2 → first.1 = second.1

namespace Apart

variable {stock after : Stock}

theorem grown (apart : Apart stock) {forest : Forest}
    (grows : Forest.Grows stock.forest forest) : Apart ⟨stock.arena, forest⟩ :=
  ⟨fun entry member => Nat.lt_of_lt_of_le (apart.inside entry member) grows, apart.different⟩

theorem insert (apart : Apart stock) {forest : Forest} {handle : Handle}
    (grows : Forest.Grows stock.forest forest) (isNew : Forest.IsNew stock.forest handle forest)
    (text : String) : Apart ⟨stock.arena.insert text handle, forest⟩ := by
  have old : ∀ entry ∈ stock.arena.entries, entry.2 ≠ handle := by
    rintro entry member rfl
    exact Nat.lt_irrefl _ (Nat.lt_of_lt_of_le (apart.inside entry member) isNew.behind)
  constructor
  · intro entry member
    rcases Array.mem_push.mp member with earlier | rfl
    · exact (apart.grown grows).inside entry earlier
    · exact isNew.inside
  · intro first inFirst second inSecond same
    rcases Array.mem_push.mp inFirst with firstOld | rfl <;>
      rcases Array.mem_push.mp inSecond with secondOld | rfl
    · exact apart.different first firstOld second secondOld same
    · exact absurd same (old first firstOld)
    · exact absurd same.symm (old second secondOld)
    · rfl

theorem leads {call : Compilation} {outcome : Except Error Handle} (apart : Apart stock)
    (original : call.compiler.registry.Original) (leads : call.Leads stock outcome after) :
    Apart after := by
  have grows := Compiler.build_grows original call.node ⟨stock.forest, call.context⟩
  cases leads with
  | again => exact apart
  | kept _ _ built =>
      rw [Step.endState_ok built] at grows
      exact apart.insert grows (Compiler.build_isNew original call.node built) _
  | apart _ built =>
      rw [Step.endState_ok built] at grows
      exact apart.grown grows
  | refused failed =>
      rw [Step.endState_error failed] at grows
      exact apart.grown grows

theorem runAll {calls : List Compilation}
    (original : ∀ call ∈ calls, call.compiler.registry.Original) (apart : Apart stock) :
    Apart (Compilation.runAll calls stock).2 := by
  induction calls generalizing stock with
  | nil => exact apart
  | cons call calls induction =>
      obtain ⟨here, later⟩ := List.forall_mem_cons.mp original
      exact induction later (apart.leads here (call.run_leads stock))

end Apart

theorem Leads.extends {call : Compilation} {stock after : Stock}
    {outcome : Except Error Handle} (leads : call.Leads stock outcome after) :
    stock.arena.Extends after.arena := by
  cases leads with
  | kept => exact Arena.extends_insert _ _ _
  | again => exact .refl _
  | apart => exact .refl _
  | refused => exact .refl _

theorem runAll_extends (calls : List Compilation) (stock : Stock) :
    stock.arena.Extends (runAll calls stock).2.arena := by
  induction calls generalizing stock with
  | nil => exact .refl _
  | cons call calls induction => exact (call.run_leads stock).extends.trans (induction _)

/-- An arena that started empty holds as many cursors as texts were compiled with sharing on.
Under each text it holds the first cursor that was given out for the text, under a number that
no later call changes.  Calls with sharing on are given the same cursor just if their texts are
equal, as long as implementations from outside return no cursors that they have from elsewhere.
A call with sharing off or one that fails changes nothing in any arena. -/
theorem runAll_arena (calls : List Compilation) (forest : Forest) :
    let ended := (runAll calls ⟨Arena.empty, forest⟩).1
    let stock := (runAll calls ⟨Arena.empty, forest⟩).2
    stock.arena.size = ((shared ended).map Prod.fst).dedup.length ∧
      (∀ text, (stock.arena.number? text).bind stock.arena.cursor? =
        (shared ended).lookup text) ∧
      (∀ later text number, stock.arena.number? text = some number →
        (runAll later stock).2.arena.number? text = some number ∧
        (runAll later stock).2.arena.cursor? number = stock.arena.cursor? number) ∧
      (∀ first ∈ shared ended, ∀ second ∈ shared ended, first.1 = second.1 →
        first.2 = second.2) ∧
      ((∀ call ∈ calls, call.compiler.registry.Original) →
        ∀ first ∈ shared ended, ∀ second ∈ shared ended, first.2 = second.2 →
          first.1 = second.1) ∧
      ∀ (call : Compilation) (stock : Stock), (call.compiler.shareNodes = false ∨
        ∃ cause, (call.run stock).1 = .error cause) → (call.run stock).2.arena = stock.arena := by
  intro ended stock
  have holds : Holds stock.arena (shared ended) := by
    have run := @Holds.runAll [] calls ⟨Arena.empty, forest⟩ holds_empty
    rwa [List.nil_append] at run
  refine ⟨holds.size, ?_, ?_, ?_, ?_, ?_⟩
  · intro text
    rw [← Arena.get?_eq]
    exact holds.get?_eq_lookup text
  · intro later text number known
    have onward := runAll_extends later stock
    refine ⟨onward.number text number known, ?_⟩
    obtain ⟨handle, held⟩ := Arena.exists_cursor? known
    rw [held, onward.cursor number handle held]
  · intro first inFirst second inSecond
    exact holds.cursor_eq inFirst inSecond
  · intro original first inFirst second inSecond
    have begun : Apart ⟨Arena.empty, forest⟩ :=
      ⟨fun _ impossible => by simp [Arena.empty] at impossible,
        fun _ impossible => by simp [Arena.empty] at impossible⟩
    exact (begun.runAll original).different first ((holds.members _).mp inFirst) second
      ((holds.members _).mp inSecond)
  · intro call stock idle
    have leads := call.run_leads stock
    generalize call.run stock = result at idle leads
    obtain ⟨outcome, after⟩ := result
    cases leads with
    | kept shares =>
        rcases idle with alone | ⟨_, impossible⟩
        · rw [alone] at shares
          cases shares
        · cases impossible
    | again => rfl
    | apart => rfl
    | refused => rfl

end Compilation

namespace Example

def sharing : Compiler := ⟨index, registry, none, "", true⟩

/-- One tree is refused, one is compiled twice and another one first without sharing. -/
def compilations : List Compilation :=
  [⟨sharing, unknown, .new⟩, ⟨sharing, twice, .new⟩,
    ⟨{ sharing with shareNodes := false }, node, .new⟩, ⟨sharing, node, .new⟩,
    ⟨sharing, twice, .new⟩]

end Example

namespace Compilation

theorem runAll_arena_twice :
    let made := runAll Example.compilations ⟨Arena.empty, Forest.empty⟩
    let first := "#band( #extents:a() #extents:a() )"
    let second := "#bor( #counts:a() #both( #extents:a() #extents:b() ) )"
    let given := [(first, Handle.mk 1), (second, Handle.mk 11), (first, Handle.mk 1)]
    (∀ call ∈ Example.compilations, call.compiler.registry.Original) ∧ shared made.1 = given ∧
      made.2.arena.size = 2 ∧ (made.2.arena.number? first).bind made.2.arena.cursor? = some ⟨1⟩ ∧
      ∀ one ∈ given, ∀ other ∈ given, one.2 = other.2 → one.1 = other.1 := by
  have original : ∀ call ∈ Example.compilations, call.compiler.registry.Original := by
    have builtIn : Example.registry.Original := (Registry.withOverrides_builtIn _).original
    simp [Example.compilations, Example.sharing, builtIn]
  have known : shared (runAll Example.compilations ⟨Arena.empty, Forest.empty⟩).1 =
      [("#band( #extents:a() #extents:a() )", ⟨1⟩),
        ("#bor( #counts:a() #both( #extents:a() #extents:b() ) )", ⟨11⟩),
        ("#band( #extents:a() #extents:a() )", ⟨1⟩)] := by cbv
  obtain ⟨size, held, _, _, apart, _⟩ := runAll_arena Example.compilations Forest.empty
  have apart := apart original
  rw [known] at size held apart
  exact ⟨original, known, size.trans rfl, held _, apart⟩

end Compilation

end Concordance
