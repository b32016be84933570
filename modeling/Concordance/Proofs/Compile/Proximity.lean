import Concordance.Proofs.Compile.Evaluation
import Concordance.Proofs.Window.Choice

/-!
# Queries for proximity

A node for an unordered window matches a document only if all its children do and an extent
of each can be chosen so that all of them lie within the width.  It matches all documents of
which this holds as long as the extents of each child end in the order in which they start.
A long extent in front of a short one can hide a choice.
-/

namespace Concordance

/-- One match of each of several queries in a document. -/
abbrev AllFound (children : List Meaning) (doc : DocId) (founds : List Match) : Prop :=
  List.Forall₂ (fun child found => child.found doc = some found) children founds

namespace Combination

variable {children : List Meaning} {doc : DocId} {founds : List Match}

theorem exists_allFound (all : allPresent children doc = true) :
    AllFound children doc (present children doc) := by
  induction children with
  | nil => exact .nil
  | cons child children induction =>
      simp only [allPresent, List.all_cons, Bool.and_eq_true] at all
      obtain ⟨found, here⟩ := Option.isSome_iff_exists.mp all.1
      have shown : present (child :: children) doc = found :: present children doc := by
        simp [present, here]
      rw [shown]
      exact .cons here (induction all.2)

theorem present_eq (all : AllFound children doc founds) :
    allPresent children doc = true ∧ present children doc = founds := by
  induction all with
  | nil => exact ⟨rfl, rfl⟩
  | cons here _ induction =>
      obtain ⟨others, later⟩ := induction
      constructor
      · simpa [allPresent, here] using others
      · rw [← later]
        simp [present, here]

theorem window_found_iff {order : Window.Order} {width : Nat} :
    (((window order width).meaning children).found doc).isSome = true ↔
      ∃ founds, AllFound children doc founds ∧
        (Window.find order width (founds.map Match.extents)).toOption.getD [] ≠ [] := by
  constructor
  · intro some
    obtain ⟨found, same⟩ := Option.isSome_iff_exists.mp some
    obtain ⟨_, all, _, rfl, occupied, _⟩ := found_cases same
    exact ⟨_, exists_allFound all, occupied⟩
  · rintro ⟨founds, all, occupied⟩
    obtain ⟨everywhere, rfl⟩ := present_eq all
    simp [meaning, found, everywhere, occupied]

/-- The extents of children that are sound and offer them are well-ordered. -/
theorem extents_wellOrdered
    (sound : ∀ child ∈ children, child.Sound ∧ child.capabilities.extents = true)
    (all : AllFound children doc founds) :
    ∀ list ∈ founds.map Match.extents, Extent.WellOrdered list := by
  intro list member
  obtain ⟨found, isFound, rfl⟩ := List.mem_map.mp member
  obtain ⟨child, isChild, here⟩ := Window.exists_related all.flip isFound
  exact ((sound child isChild).1.sound doc found here).ordered (sound child isChild).2

/-- What an unordered window over children with extents matches. -/
theorem unordered_found {width : Nat}
    (sound : ∀ child ∈ children, child.Sound ∧ child.capabilities.extents = true) :
    let found := ((window .unordered width).meaning children).found doc
    (found.isSome = true → ∃ founds, AllFound children doc founds ∧
      Window.Fits width (founds.map Match.extents)) ∧
    ∀ founds, AllFound children doc founds →
      (∀ found ∈ founds, Extent.StopsAscend found.extents) →
      Window.Fits width (founds.map Match.extents) → found.isSome = true := by
  intro found
  constructor
  · intro some
    obtain ⟨founds, all, occupied⟩ := window_found_iff.mp some
    obtain ⟨windows, same, fits, _⟩ :=
      Window.unordered_finds width (extents_wellOrdered sound all)
    refine ⟨founds, all, fits ?_⟩
    simpa [Window.find, same, Except.toOption] using occupied
  · intro founds all ascending fits
    obtain ⟨windows, same, _, complete⟩ :=
      Window.unordered_finds width (extents_wellOrdered sound all)
    apply window_found_iff.mpr
    have occupied := complete (List.forall_mem_map.mpr ascending) fits
    exact ⟨founds, all, by simpa [Window.find, same, Except.toOption] using occupied⟩

/-- An ordered window matches where a chain leads through lists that can be traced. -/
theorem ordered_found {width : Nat}
    (sound : ∀ child ∈ children, child.Sound ∧ child.capabilities.extents = true)
    (all : AllFound children doc founds) {firsts : List Extent} {others : List (List Extent)}
    (lists : founds.map Match.extents = firsts :: others)
    (ascending : others ≠ [] → Extent.StopsAscend firsts)
    (traceable : Window.Traceable width others) {first : Extent} (member : first ∈ firsts)
    (linked : Window.Linked width first others) :
    (((window .ordered width).meaning children).found doc).isSome = true := by
  have wellOrdered := extents_wellOrdered sound all
  rw [lists] at wellOrdered
  apply window_found_iff.mpr
  refine ⟨founds, all, ?_⟩
  rw [lists]
  exact Window.ordered_ne_nil (wellOrdered firsts List.mem_cons_self) ascending traceable member
    linked

end Combination

namespace Compiler

variable {compiler : Compiler} {interval : Nat} {customs : Customs} {contents : Contents}

/-- The children of a node for a window that was built are sound and offer extents. -/
theorem window_children (serves : compiler.index.Serves interval contents)
    (described : compiler.registry.Described customs) {node : Node}
    (countable : node.Countable compiler.registry customs contents)
    (telling : compiler.shareNodes = true →
      node.Telling (Node.meaning compiler.registry customs contents))
    {order : Window.Order}
    (resolved : compiler.registry.resolve? node.operator = some (.window order))
    {bench after : Workbench} {handle : Handle}
    (built : compiler.build node bench = .ok handle after) :
    ∀ child ∈ Node.meanings compiler.registry customs contents node.children,
      child.Sound ∧ child.capabilities.extents = true := by
  obtain ⟨handles, middle, request, compiled, rfl, rfl, index, made⟩ := build_eq_ok built
  obtain ⟨meanings, starts, grown⟩ :=
    buildChildren_grown serves described countable telling compiled
  obtain ⟨implementation, known, made⟩ := Registry.build_eq_ok made
  rw [resolved] at known
  cases known
  have counts := countable.here
  have length := grown.length_eq
  rw [Node.meaning_eq _ _ resolved] at counts
  rw [Node.meanings_eq_map, List.length_map] at length
  have library : ∀ build, Implementation.window order ≠ .custom build := by simp
  have settles := Forest.build_settles (index ▸ serves) library grown length counts
  obtain ⟨⟨_, admits⟩, _⟩ := settles.of_ok made
  intro child member
  have offers := Capabilities.covers_extents (admits.offered child member) rfl
  rw [← grown.meant] at member
  obtain ⟨built, isBuilt, rfl⟩ := List.mem_map.mp member
  exact ⟨(grown.tracks built isBuilt).sound, offers⟩

section Matching

variable {calls : List Index.Call} (produced : Index.Produced interval calls compiler.index)
  (described : compiler.registry.Described customs) {node : Node}
  (countable : node.Countable compiler.registry customs (Index.Ledger.ofCalls calls).contents)
  (telling : compiler.shareNodes = true → node.Telling
    (Node.meaning compiler.registry customs (Index.Ledger.ofCalls calls).contents))
  {arena kept : Arena} {bench after : Workbench} {handle : Handle}
  (new : compiler.shareNodes = true → arena.get? node.text = none)
  (compiled : compiler.compile node arena bench = .ok (handle, kept) after)

include new compiled in
theorem built_of_new : compiler.build node bench = .ok handle after := by
  rcases compile_cases compiled with ⟨shared, held, _⟩ | ⟨_, built, _⟩
  · rw [new shared] at held
    cases held
  · exact built

variable {motions : List Forest.Motion} {doc : DocId}
  (ascending : (motions.map Forest.Motion.position).Pairwise (· ≤ ·))
  (reached : ∀ motion ∈ motions, motion.position ≤ doc.val)

include produced described countable telling new compiled ascending reached

/-- A compiled node that is moved to a document has a match there exactly if its meaning has
one. -/
theorem compile_hasMatch :
    ∃ middle moved, Forest.Motion.runAll handle motions after.forest = .ok () middle ∧
      Forest.moveTo handle doc middle = .ok () moved ∧
      moved.hasMatch handle doc = ((node.meaning compiler.registry customs
        (Index.Ledger.ofCalls calls).contents).found doc).isSome := by
  have built := built_of_new new compiled
  have tracks := (build_shares produced.serves described node countable telling built).tracks
  obtain ⟨middle, run, there⟩ := Forest.Motion.runAll_tracks tracks
    (fun motion _ => Nat.zero_le motion.position) ascending
  have behind : (motions.map Forest.Motion.position).foldl max 0 ≤ doc.val := by
    refine List.foldlRecOn (motive := fun position => position ≤ doc.val) _ _ (Nat.zero_le _) ?_
    intro greatest low position member
    obtain ⟨motion, isMotion, rfl⟩ := List.mem_map.mp member
    exact Nat.max_le.mpr ⟨low, reached motion isMotion⟩
  obtain ⟨moved, sought, here, _⟩ := Forest.moveTo_tracks there behind
  obtain ⟨_, first, shows⟩ := here.shows
  exact ⟨middle, moved, run, sought, shows.hasMatch_eq first⟩

/-- A compiled node for an ordered window has a match in a document through which a chain
leads. -/
theorem compile_ordered
    (resolved : compiler.registry.resolve? node.operator = some (.window .ordered))
    {founds : List Match}
    (all : AllFound (Node.meanings compiler.registry customs (Index.Ledger.ofCalls calls).contents
      node.children) doc founds)
    {firsts : List Extent} {others : List (List Extent)}
    (lists : founds.map Match.extents = firsts :: others)
    (stops : others ≠ [] → Extent.StopsAscend firsts)
    (traceable : Window.Traceable (node.windowWidth .ordered) others) {first : Extent}
    (member : first ∈ firsts) (linked : Window.Linked (node.windowWidth .ordered) first others) :
    ∃ middle moved, Forest.Motion.runAll handle motions after.forest = .ok () middle ∧
      Forest.moveTo handle doc middle = .ok () moved ∧ moved.hasMatch handle doc = true := by
  obtain ⟨middle, moved, run, sought, same⟩ := compile_hasMatch produced described countable
    telling new compiled ascending reached
  have sound := window_children produced.serves described countable telling resolved
    (built_of_new new compiled)
  refine ⟨middle, moved, run, sought, ?_⟩
  rw [same, Node.meaning_eq _ _ resolved]
  exact Combination.ordered_found sound all lists stops traceable member linked

/-- A compiled node for an unordered window that is moved to a document has a match there only
if a choice of extents fits, and if one fits among extents that end in order. -/
theorem compile_unordered
    (resolved : compiler.registry.resolve? node.operator = some (.window .unordered)) :
    let means := Node.meanings compiler.registry customs (Index.Ledger.ofCalls calls).contents
      node.children
    let width := node.windowWidth .unordered
    ∃ middle moved, Forest.Motion.runAll handle motions after.forest = .ok () middle ∧
      Forest.moveTo handle doc middle = .ok () moved ∧
      (moved.hasMatch handle doc = true → ∃ founds, AllFound means doc founds ∧
        Window.Fits width (founds.map Match.extents)) ∧
      ∀ founds, AllFound means doc founds →
        (∀ found ∈ founds, Extent.StopsAscend found.extents) →
        Window.Fits width (founds.map Match.extents) → moved.hasMatch handle doc = true := by
  intro means width
  obtain ⟨middle, moved, run, sought, same⟩ := compile_hasMatch produced described countable
    telling new compiled ascending reached
  have sound := window_children produced.serves described countable telling resolved
    (built_of_new new compiled)
  refine ⟨middle, moved, run, sought, ?_⟩
  rw [same, Node.meaning_eq _ _ resolved]
  exact Combination.unordered_found sound

end Matching

end Compiler

/-! ## Countable windows -/

theorem Combination.length_present_le {children : List Meaning} {doc : DocId} {bound : Nat}
    (few : ∀ child ∈ children, ∀ found, child.found doc = some found →
      found.extents.length ≤ bound) :
    ((present children doc).map Match.extents).flatten.length ≤ children.length * bound := by
  induction children with
  | nil => exact Nat.zero_le _
  | cons child children induction =>
      obtain ⟨here, later⟩ := List.forall_mem_cons.mp few
      have others := induction later
      rw [List.length_cons, Nat.succ_mul]
      cases known : child.found doc with
      | none =>
          have same : present (child :: children) doc = present children doc := by
            simp [present, known]
          rw [same]
          omega
      | some found =>
          have same : present (child :: children) doc = found :: present children doc := by
            simp [present, known]
          have bounded := here found known
          rw [same, List.map_cons, List.flatten_cons, List.length_append]
          omega

/-- An unordered window over few extents is countable. -/
theorem Node.unordered_countable {contents : Contents} {registry : Registry} {customs : Customs}
    {node : Node} {bound : Nat}
    (resolved : registry.resolve? node.operator = some (.window .unordered))
    (children : ∀ child ∈ node.children, Node.Countable registry customs contents child)
    (few : ∀ child ∈ meanings registry customs contents node.children, ∀ doc found,
      child.found doc = some found → found.extents.length ≤ bound)
    (small : node.children.length * bound < 4294967296) :
    Node.Countable registry customs contents node := by
  refine .intro node children ?_
  rw [Node.meaning_eq customs contents resolved]
  intro doc found known
  obtain ⟨_, _, windows, searched, _, rfl⟩ := Combination.found_cases known
  have extents := @Combination.length_present_le _ doc bound fun child member =>
    few child member doc
  rw [meanings_eq_map, List.length_map, ← meanings_eq_map] at extents
  apply Nat.lt_of_le_of_lt _ small
  apply Nat.le_trans _ extents
  cases run : Window.unordered (node.windowWidth .unordered)
      ((Combination.present (meanings registry customs contents node.children) doc).map
        Match.extents) with
  | error cause =>
      rw [Window.find, run] at searched
      rw [searched]
      exact Nat.zero_le _
  | ok others =>
      rw [Window.find, run] at searched
      rw [searched]
      exact Window.length_unordered_le run

namespace Example

/-- In the first document an extent of the second key is hidden behind a long one. -/
def nestedCalls : List Index.Call :=
  [.beginKey [97], .beginDocument first, .addOccurrence 5, .beginDocument second,
    .addOccurrence 2, .beginKey [98], .beginDocument first, .addExtent (.ofNats 6 100),
    .addExtent (.ofNats 7 8), .beginDocument second, .addOccurrence 4]

def nestedIndex : Index :=
  (Index.Ledger.ofCalls nestedCalls).index 1 Index.KeyFormat.plain "nested"

def near : Node :=
  ⟨"uw", TextMap.empty.insert Node.defaultName (.long 5), [Node.term "a", Node.term "b"]⟩

theorem nested_produced : Index.Produced 1 nestedCalls nestedIndex := by
  obtain ⟨written, _, finished⟩ := @Index.finished_of_length 1 nestedCalls Index.KeyFormat.plain 162
    (by cbv) (by decide) (by decide) (by decide)
  exact Index.Produced.of_finished finished Index.KeyFormat.plain_faithful "nested"

/-- The meanings of the two keys. -/
def nestedMeanings : List Meaning :=
  [.source [⟨first, 1, [.ofNats 5 6]⟩, ⟨second, 1, [.ofNats 2 3]⟩] true,
    .source [⟨first, 2, [.ofNats 6 100, .ofNats 7 8]⟩, ⟨second, 1, [.ofNats 4 5]⟩] true]

theorem near_meanings : Node.meanings registry Customs.nothing
    (Index.Ledger.ofCalls nestedCalls).contents near.children = nestedMeanings := by cbv

theorem nested_few : ∀ child ∈ nestedMeanings, ∀ doc found, child.found doc = some found →
    found.extents.length ≤ 2 := by
  intro child isChild doc found known
  simp only [nestedMeanings, List.mem_cons, List.not_mem_nil, or_false] at isChild
  rcases isChild with rfl | rfl <;>
    obtain ⟨posting, member, _, rfl⟩ := Meaning.source_eq_some known <;>
    simp only [List.mem_cons, List.not_mem_nil, or_false] at member <;>
    rcases member with rfl | rfl <;> simp

theorem nested_countable_of_perm {node : Node}
    (resolved : registry.resolve? node.operator = some (.window .unordered))
    (children : node.children.Perm near.children) :
    node.Countable registry Customs.nothing (Index.Ledger.ofCalls nestedCalls).contents := by
  have serves := nested_produced.serves
  have length : node.children.length = 2 := children.length_eq
  refine @Node.unordered_countable _ _ _ _ 2 resolved ?_ ?_ (by rw [length]; decide)
  · have leaf : ∀ key, (Node.term key).Countable registry Customs.nothing
        (Index.Ledger.ofCalls nestedCalls).contents := fun key => Node.leaf_countable serves rfl
    intro child isChild
    have among := children.mem_iff.mp isChild
    simp only [near, List.mem_cons, List.not_mem_nil, or_false] at among
    rcases among with rfl | rfl <;> exact leaf _
  · intro child isChild
    rw [Node.meanings_eq_map, (children.map _).mem_iff, ← Node.meanings_eq_map,
      near_meanings] at isChild
    exact nested_few child isChild

theorem nested_countable {node : Node}
    (resolved : registry.resolve? node.operator = some (.window .unordered))
    (children : node.children = near.children) :
    node.Countable registry Customs.nothing (Index.Ledger.ofCalls nestedCalls).contents :=
  nested_countable_of_perm resolved (children ▸ .refl _)

theorem near_countable :
    near.Countable registry Customs.nothing (Index.Ledger.ofCalls nestedCalls).contents :=
  nested_countable rfl rfl

theorem near_telling : near.Telling
    (Node.meaning registry Customs.nothing (Index.Ledger.ofCalls nestedCalls).contents) := by
  have leaf : ∀ key, (Node.term key).Telling
      (Node.meaning registry Customs.nothing (Index.Ledger.ofCalls nestedCalls).contents) :=
    fun key => .intro _ (fun _ impossible => nomatch impossible) fun _ impossible =>
      nomatch impossible
  have different : (Node.term "a").text ≠ (Node.term "b").text := by decide
  refine .intro near (by simp [near, leaf]) ?_
  simp [near, different, different.symm]

end Example

namespace Compiler

/-- In the second document the node stands near enough. -/
theorem compile_unordered_second :
    let compiler : Compiler := ⟨Example.nestedIndex, Example.registry, none, "", true⟩
    let contents := (Index.Ledger.ofCalls Example.nestedCalls).contents
    let motions : List Forest.Motion := [.moveTo Example.first, .movePast Example.first]
    Index.Produced 1 Example.nestedCalls compiler.index ∧
      compiler.registry.Described Customs.nothing ∧
      compiler.registry.resolve? Example.near.operator = some (.window .unordered) ∧
      Example.near.Countable compiler.registry Customs.nothing contents ∧
      Example.near.Telling (Node.meaning compiler.registry Customs.nothing contents) ∧
      ∃ handle kept after,
        compiler.compile Example.near Arena.empty ⟨Forest.empty, ScoringContext.new⟩ =
          .ok (handle, kept) after ∧
        ∃ middle moved, Forest.Motion.runAll handle motions after.forest = .ok () middle ∧
          Forest.moveTo handle Example.second middle = .ok () moved ∧
          moved.hasMatch handle Example.second = true := by
  intro compiler contents motions
  have described : compiler.registry.Described Customs.nothing :=
    (Registry.withOverrides_builtIn _).described _
  have resolved : compiler.registry.resolve? Example.near.operator = some (.window .unordered) :=
    rfl
  refine ⟨Example.nested_produced, described, resolved, Example.near_countable,
    Example.near_telling, ?_⟩
  have compiles : Step.evaluate (do
      let _ ← compiler.compile Example.near Arena.empty
      pure true) ⟨Forest.empty, ScoringContext.new⟩ = .ok true := by cbv
  obtain ⟨final, run⟩ := Step.evaluate_eq_ok compiles
  obtain ⟨result, after, compiled, _⟩ := Step.bind_eq_ok run
  have ascending : (motions.map Forest.Motion.position).Pairwise (· ≤ ·) := by decide
  have reached : ∀ motion ∈ motions, motion.position ≤ Example.second.val := by decide
  obtain ⟨middle, moved, ran, sought, _, complete⟩ := compile_unordered Example.nested_produced
    described Example.near_countable (fun _ => Example.near_telling) (fun _ => rfl) compiled
    ascending reached resolved
  refine ⟨result.1, result.2, after, compiled, middle, moved, ran, sought, ?_⟩
  let chosen : List Extent := [.ofNats 2 3, .ofNats 4 5]
  apply complete [⟨Example.second, 1, chosen.take 1⟩, ⟨Example.second, 1, chosen.drop 1⟩]
  · rw [Example.near_meanings]
    exact .cons rfl (.cons rfl .nil)
  · decide
  · refine ⟨chosen, .ofNats 2 5, .cons (by decide) (.cons (by decide) .nil), ?_, by decide⟩
    exact ⟨by decide, by decide, by decide, by decide⟩

/-- In the first document the choice is hidden behind a long extent, and the node has no
match there. -/
theorem compile_unordered_hidden :
    ¬∀ (interval : Nat) (calls : List Index.Call) (compiler : Compiler) (node : Node)
      (handle : Handle) (kept : Arena) (after : Workbench) (moved : Forest) (doc : DocId)
      (founds : List Match),
      let means := Node.meanings compiler.registry Customs.nothing
        (Index.Ledger.ofCalls calls).contents node.children
      Index.Produced interval calls compiler.index → compiler.registry.BuiltIn →
      compiler.shareNodes = false →
      compiler.registry.resolve? node.operator = some (.window .unordered) →
      node.Countable compiler.registry Customs.nothing (Index.Ledger.ofCalls calls).contents →
      compiler.compile node Arena.empty ⟨Forest.empty, ScoringContext.new⟩ =
        .ok (handle, kept) after →
      Forest.moveTo handle doc after.forest = .ok () moved →
      AllFound means doc founds →
      Window.Fits (node.windowWidth .unordered) (founds.map Match.extents) →
      moved.hasMatch handle doc = true := by
  intro complete
  let compiler : Compiler := ⟨Example.nestedIndex, Example.registry, none, "", false⟩
  have misses : Step.evaluate (do
      let result ← compiler.compile Example.near Arena.empty
      Workbench.onForest (Forest.moveTo result.1 Example.first)
      let bench ← get
      pure (bench.forest.hasMatch result.1 Example.first)) ⟨Forest.empty, ScoringContext.new⟩ =
      .ok false := by cbv
  obtain ⟨final, run⟩ := Step.evaluate_eq_ok misses
  obtain ⟨result, after, compiled, run⟩ := Step.bind_eq_ok run
  obtain ⟨_, _, ran, run⟩ := Step.bind_eq_ok run
  obtain ⟨moved, sought, rfl⟩ := Step.onPart_eq_ok ran
  injection run with unmatched
  let chosen : List Extent := [.ofNats 5 6, .ofNats 7 8]
  let lists : List (List Extent) := [[.ofNats 5 6], [.ofNats 6 100, .ofNats 7 8]]
  have all : AllFound (Node.meanings compiler.registry Customs.nothing
      (Index.Ledger.ofCalls Example.nestedCalls).contents Example.near.children) Example.first
      [⟨Example.first, 1, lists.headD []⟩, ⟨Example.first, 2, lists.getLastD []⟩] := by
    rw [Example.near_meanings]
    exact .cons rfl (.cons rfl .nil)
  have covers : Window.Covers (.ofNats 5 8) chosen :=
    ⟨by decide, by decide, by decide, by decide⟩
  have fits : Window.Fits 5 lists :=
    ⟨chosen, _, .cons (by decide) (.cons (by decide) .nil), covers, by decide⟩
  have matched := complete 1 Example.nestedCalls compiler Example.near result.1 result.2 after
    moved Example.first _ Example.nested_produced (Registry.withOverrides_builtIn _) rfl rfl
    Example.near_countable compiled sought all fits
  rw [unmatched] at matched
  cases matched

end Compiler

end Concordance
