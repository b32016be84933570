import Concordance.Proofs.Compile.Presence
import Concordance.Proofs.Compile.Proximity
import Concordance.Proofs.Window.Rearranged

/-!
# Queries with their children in another order

A node for an unordered window is built for any order of its children.  In a document in which
no extents of two children start together it shows the same extents for any order.  Where they
do, the order decides which windows are found; but as long as the extents of each child end in
the order in which they start, it matches the same documents for any order.
-/

namespace Concordance

/-- A node that is another one but for the order of its children. -/
structure Node.Rearranged (node other : Node) : Prop where
  operator : other.operator = node.operator
  parameters : other.parameters = node.parameters
  children : node.children.Perm other.children

/-! ## Meanings -/

namespace Combination

variable {children others : List Meaning} {doc : DocId} {width : Nat}

/-- No extents of two children start together in a document that all of them match. -/
def Untied (children : List Meaning) (doc : DocId) : Prop :=
  ∀ founds, AllFound children doc founds →
    ∀ position, Window.Untied position (founds.map Match.extents)

/-- The extents of each child end in order in a document that all of them match. -/
def StopsAscend (children : List Meaning) (doc : DocId) : Prop :=
  ∀ founds, AllFound children doc founds →
    ∀ found ∈ founds, Extent.StopsAscend found.extents

theorem unordered_found_eq {windows : List Extent} (all : allPresent children doc = true)
    (searched : Window.unordered width ((present children doc).map Match.extents) =
      .ok windows) :
    ((window .unordered width).meaning children).found doc =
      if windows = [] then none else some ⟨doc, windows.length, windows⟩ := by
  cases windows <;> simp [meaning, found, Window.find, all, searched, Except.toOption]

/-- What an unordered window over children in another order matches. -/
theorem unordered_rearranged (width : Nat) (perm : children.Perm others)
    (sound : ∀ child ∈ children, child.Sound ∧ child.capabilities.extents = true) (doc : DocId) :
    let found := ((window .unordered width).meaning children).found doc
    let rival := ((window .unordered width).meaning others).found doc
    (Untied children doc → found = rival) ∧
      (StopsAscend children doc → found.isSome = rival.isSome) := by
  intro found rival
  have permPresent : (present children doc).Perm (present others doc) := perm.filterMap _
  have sameAll : allPresent children doc = allPresent others doc := perm.all_eq
  by_cases all : allPresent children doc = true
  · have allOther : allPresent others doc = true := sameAll ▸ all
    have founds := exists_allFound all
    by_cases present : (present children doc).map Match.extents = []
    · have lists := (permPresent.map Match.extents).symm
      rw [present] at lists
      have same : found = rival :=
        (@unordered_found_eq _ _ width [] all (present ▸ rfl)).trans
          (@unordered_found_eq _ _ width [] allOther (lists.eq_nil ▸ rfl)).symm
      exact ⟨fun _ => same, fun _ => congrArg _ same⟩
    · obtain ⟨windows, rivals, searched, searchedOther, alike⟩ := Window.unordered_alike width
        present (permPresent.map _) (extents_wellOrdered sound founds)
      have shown : found = _ := unordered_found_eq all searched
      have shownOther : rival = _ := unordered_found_eq allOther searchedOther
      rw [shown, shownOther]
      constructor
      · intro untied
        rw [alike.all (untied _ founds)]
      · intro ascending
        have nil := alike.nil_iff (List.forall_mem_map.mpr (ascending _ founds))
        by_cases empty : windows = []
        · rw [if_pos empty, if_pos (nil.mp empty)]
        · rw [if_neg empty, if_neg (nil.not.mp empty)]
          rfl
  · have notOther : ¬allPresent others doc = true := sameAll ▸ all
    have same : found = rival := by
      simp [found, rival, meaning, Combination.found, all, notOther]
    exact ⟨fun _ => same, fun _ => congrArg _ same⟩

theorem offer_rearranged {combination : Combination} {offers rivals : List Offer} {offer : Offer}
    (perm : offers.Perm rivals) (offered : combination.offer offers = .ok offer) :
    ∃ rival, combination.offer rivals = .ok rival := by
  obtain ⟨present, cover⟩ := (granted_of_ite offered).1
  refine ⟨_, if_pos ⟨?_, fun child member => cover child (perm.mem_iff.mpr member)⟩⟩
  rintro rfl
  exact present perm.eq_nil

end Combination

/-! ## Building -/

namespace Node

variable {registry : Registry} {shared : Bool} {index : Index}

/-- Siblings are offered one by one, unless two of them share a text and differ. -/
theorem offers_eq_mapM {children : List Node} {known : List (String × Offer)}
    (held : shared = true → ∀ entry ∈ known, ∀ child ∈ children, child.text = entry.1 →
      child.offer registry shared index = .ok entry.2)
    (siblings : shared = true → ∀ first ∈ children, ∀ second ∈ children,
      first.text = second.text → first = second) :
    offers registry shared index known children = children.mapM (offer registry shared index) := by
  induction children generalizing known with
  | nil => rfl
  | cons child children induction =>
      have siblingsRest := fun isShared first isFirst second isSecond =>
        siblings isShared first (List.mem_cons_of_mem _ isFirst) second
          (List.mem_cons_of_mem _ isSecond)
      have heldRest := fun isShared entry member other isOther =>
        held isShared entry member other (List.mem_cons_of_mem _ isOther)
      rw [offers, List.mapM_cons]
      cases filed : if shared then known.lookup child.text else none with
      | some entry =>
          obtain ⟨isShared, looked⟩ := Option.ite_none_right_eq_some.mp filed
          obtain ⟨_, _, split, _⟩ := List.lookup_eq_some_iff.mp looked
          have member : (child.text, entry) ∈ known := split ▸ List.mem_append_right _
            List.mem_cons_self
          have same := held isShared _ member child List.mem_cons_self rfl
          dsimp only
          rw [same, Step.ok_bind, induction heldRest siblingsRest]
      | none =>
          dsimp only
          cases made : child.offer registry shared index with
          | error kind => rfl
          | ok first =>
              rw [Step.ok_bind, Step.ok_bind, induction ?_ siblingsRest]
              intro isShared entry member other isOther text
              rcases List.mem_cons.mp member with rfl | earlier
              · rw [siblings isShared other (List.mem_cons_of_mem _ isOther) child
                  List.mem_cons_self text]
                exact made
              · exact heldRest isShared entry earlier other isOther text

theorem mapM_eq_ok_iff {α β : Type} {make : α → Except ErrorKind β} {items : List α}
    {made : List β} :
    items.mapM make = .ok made ↔ List.Forall₂ (fun item result => make item = .ok result) items
      made := by
  induction items generalizing made with
  | nil =>
      rw [List.mapM_nil, List.forall₂_nil_left_iff]
      exact ⟨fun same => (Except.ok.inj same).symm, fun same => same ▸ rfl⟩
  | cons item items induction =>
      rw [List.mapM_cons, List.forall₂_cons_left_iff]
      constructor
      · intro same
        obtain ⟨first, here, same⟩ := Step.ok_of_bind same
        obtain ⟨later, rest, same⟩ := Step.ok_of_bind same
        cases same
        exact ⟨first, later, here, induction.mp rest, rfl⟩
      · rintro ⟨first, later, here, rest, rfl⟩
        rw [here, Step.ok_bind, induction.mpr rest]
        rfl

/-- A window is offered for any order of its children. -/
theorem Rearranged.offered {node other : Node} (rearranged : node.Rearranged other)
    {order : Window.Order} (resolved : registry.resolve? node.operator = some (.window order))
    (siblings : shared = true → ∀ first ∈ node.children, ∀ second ∈ node.children,
      first.text = second.text → first = second) {made : Offer}
    (offered : node.offer registry shared index = .ok made) :
    ∃ rival, other.offer registry shared index = .ok rival := by
  obtain ⟨_, parameters, children⟩ := node
  obtain ⟨operator, otherParameters, others⟩ := other
  obtain ⟨rfl, rfl, perm⟩ := rearranged
  have siblingsOther := fun isShared first isFirst second isSecond =>
    siblings isShared first (perm.mem_iff.mpr isFirst) second (perm.mem_iff.mpr isSecond)
  rw [Node.offer] at offered ⊢
  obtain ⟨below, known, offered⟩ := Step.ok_of_bind offered
  rw [resolved] at offered
  obtain ⟨asks, offered⟩ := granted_of_ite offered
  rw [offers_eq_mapM (fun _ => List.forall_mem_nil _) siblings] at known
  obtain ⟨rivals, related, permBelow⟩ :=
    List.perm_comp_forall₂ perm.symm (mapM_eq_ok_iff.mp known)
  obtain ⟨rival, granted⟩ := Combination.offer_rearranged permBelow.symm offered
  refine ⟨rival, ?_⟩
  rw [offers_eq_mapM (fun _ => List.forall_mem_nil _) siblingsOther,
    mapM_eq_ok_iff.mpr related, Step.ok_bind, resolved]
  exact (if_pos asks).trans granted

end Node

/-! ## Draining -/

/-- How what two cursors show in all documents compares, if both search the matches of some
children for windows. -/
structure Combination.ShownAlike (children : List Meaning) (shown rivals : List Forest.Shown) :
    Prop where
  untied : ∀ doc, Untied children doc →
    ∀ item : Forest.Shown, item.doc = doc → (item ∈ shown ↔ item ∈ rivals)
  documents : ∀ doc, StopsAscend children doc →
    (doc ∈ shown.map Forest.Shown.doc ↔ doc ∈ rivals.map Forest.Shown.doc)
  all : (∀ doc, Untied children doc) → shown = rivals

theorem Forest.mem_shown {found : DocId → Option Match} {matched : List Match}
    (listed : Listed found 0 matched) (place : ∀ doc item, found doc = some item → item.doc = doc)
    {offered : Capabilities} {item : Shown} :
    item ∈ matched.map (Shown.of offered) ↔
      ∃ here, found item.doc = some here ∧ Shown.of offered here = item := by
  rw [List.mem_map]
  constructor
  · rintro ⟨here, member, rfl⟩
    exact ⟨here, ((listed.mem_iff here).mp member).2, rfl⟩
  · rintro ⟨here, known, same⟩
    refine ⟨here, (listed.mem_iff here).mpr ⟨Nat.zero_le _, ?_⟩, same⟩
    rw [place _ _ known]
    exact known

theorem Forest.mem_shown_doc {found : DocId → Option Match} {matched : List Match}
    (listed : Listed found 0 matched) (place : ∀ doc item, found doc = some item → item.doc = doc)
    {offered : Capabilities} {doc : DocId} :
    doc ∈ (matched.map (Shown.of offered)).map Shown.doc ↔ (found doc).isSome = true := by
  rw [List.mem_map]
  constructor
  · rintro ⟨item, member, rfl⟩
    obtain ⟨here, known, _⟩ := (mem_shown listed place).mp member
    rw [known]
    rfl
  · intro isSome
    obtain ⟨here, known⟩ := Option.isSome_iff_exists.mp isSome
    have standing := place _ _ known
    refine ⟨Shown.of offered here, (mem_shown listed place).mpr ⟨here, ?_, rfl⟩, standing⟩
    exact (congrArg found standing).trans known

theorem Node.unordered_capabilities {registry : Registry} {customs : Customs}
    {contents : Contents} {node : Node}
    (resolved : registry.resolve? node.operator = some (.window .unordered)) :
    (node.meaning registry customs contents).capabilities = Capabilities.countAndExtents := by
  rw [meaning_eq customs contents resolved]
  rfl

namespace Node.Rearranged

variable {node other : Node} (rearranged : node.Rearranged other)

include rearranged

theorem windowWidth_eq (order : Window.Order) : other.windowWidth order = node.windowWidth order := by
  unfold windowWidth getLong? get?
  rw [rearranged.parameters, rearranged.children.length_eq]

theorem telling {means : Node → Meaning} (telling : node.Telling means) : other.Telling means := by
  have mem {child} : child ∈ other.children ↔ child ∈ node.children :=
    rearranged.children.mem_iff.symm
  refine .intro other (fun child isChild => telling.inside child (mem.mp isChild)) ?_
  intro first isFirst second isSecond
  exact telling.siblings first (mem.mp isFirst) second (mem.mp isSecond)

variable {registry : Registry} {customs : Customs} {contents : Contents}
  (resolved : registry.resolve? node.operator = some (.window .unordered))
  (children : ∀ child ∈ meanings registry customs contents node.children,
    child.Sound ∧ child.capabilities.extents = true)

include resolved children

/-- What a window means over children in another order. -/
theorem meaning_found (doc : DocId) :
    let means := meaning registry customs contents
    (Combination.Untied (node.children.map means) doc →
      (means node).found doc = (means other).found doc) ∧
    (Combination.StopsAscend (node.children.map means) doc →
      ((means node).found doc).isSome = ((means other).found doc).isSome) := by
  intro means
  have meansNode : means node = _ := meaning_eq customs contents resolved
  have meansOther : means other = _ :=
    meaning_eq customs contents (rearranged.operator ▸ resolved)
  rw [meansNode, meansOther, ← meanings_eq_map]
  dsimp only [Implementation.meaning]
  rw [rearranged.windowWidth_eq]
  refine Combination.unordered_rearranged _ ?_ children doc
  rw [meanings_eq_map, meanings_eq_map]
  exact rearranged.children.map _

/-- Where nothing is tied a window has the same matches over children in any order. -/
theorem found_eq
    (untied : ∀ doc, Combination.Untied (node.children.map (meaning registry customs contents)) doc) :
    (node.meaning registry customs contents).found =
      (other.meaning registry customs contents).found :=
  funext fun doc => (rearranged.meaning_found resolved children doc).1 (untied doc)

/-- The matches of a window over children in another order. -/
theorem shownAlike (sound : (node.meaning registry customs contents).Sound)
    (soundOther : (other.meaning registry customs contents).Sound) {matched rivals : List Match}
    (listed : Listed (node.meaning registry customs contents).found 0 matched)
    (listedOther : Listed (other.meaning registry customs contents).found 0 rivals) :
    Combination.ShownAlike (node.children.map (meaning registry customs contents))
      (matched.map (Forest.Shown.of (node.meaning registry customs contents).capabilities))
      (rivals.map (Forest.Shown.of (other.meaning registry customs contents).capabilities)) := by
  have found := rearranged.meaning_found resolved children
  rw [unordered_capabilities resolved, unordered_capabilities (rearranged.operator ▸ resolved)]
  refine ⟨?_, ?_, ?_⟩
  · rintro doc untied item rfl
    rw [Forest.mem_shown listed sound.place, Forest.mem_shown listedOther soundOther.place,
      (found item.doc).1 untied]
  · intro doc ascending
    rw [Forest.mem_shown_doc listed sound.place, Forest.mem_shown_doc listedOther soundOther.place,
      (found doc).2 ascending]
  · intro untied
    rw [rearranged.found_eq resolved children untied] at listed
    rw [listed.unique listedOther]

end Node.Rearranged

namespace Compiler

variable {compiler : Compiler} {interval : Nat} {calls : List Index.Call} {node other : Node}

/-- A window that is built is built with its children in another order too. -/
theorem build_rearranged (produced : Index.Produced interval calls compiler.index)
    (builtIn : compiler.registry.BuiltIn) {order : Window.Order}
    (resolved : compiler.registry.resolve? node.operator = some (.window order))
    (rearranged : node.Rearranged other)
    (siblings : compiler.shareNodes = true → ∀ first ∈ node.children, ∀ second ∈ node.children,
      first.text = second.text → first = second) {bench after : Workbench} {handle : Handle}
    (built : compiler.build node bench = .ok handle after) (otherBench : Workbench) :
    ∃ otherHandle otherAfter, compiler.build other otherBench = .ok otherHandle otherAfter := by
  obtain ⟨offer, offered⟩ :=
    (exists_build_iff produced builtIn node bench).mp ⟨handle, after, built⟩
  exact (exists_build_iff produced builtIn other otherBench).mpr
    (rearranged.offered resolved siblings offered)

/-- What a compiled window shows with its children in another order. -/
theorem compile_rearranged (produced : Index.Produced interval calls compiler.index)
    (builtIn : compiler.registry.BuiltIn)
    (resolved : compiler.registry.resolve? node.operator = some (.window .unordered))
    (rearranged : node.Rearranged other)
    (countable : ∀ window ∈ [node, other], window.Countable compiler.registry Customs.nothing
      (Index.Ledger.ofCalls calls).contents)
    {arena otherArena kept : Arena}
    (sharing : compiler.shareNodes = true →
      node.Telling (Node.meaning compiler.registry Customs.nothing
        (Index.Ledger.ofCalls calls).contents) ∧
      (∀ first ∈ node.children, ∀ second ∈ node.children,
        first.text = second.text → first = second) ∧
      arena.get? node.text = none ∧ otherArena.get? other.text = none)
    {bench after : Workbench} (otherBench : Workbench) {handle : Handle}
    (compiled : compiler.compile node arena bench = .ok (handle, kept) after) :
    ∃ otherHandle otherKept otherAfter,
      compiler.compile other otherArena otherBench = .ok (otherHandle, otherKept) otherAfter ∧
      ∃ shown rivals rest otherRest, Forest.drain handle none after.forest = .ok shown rest ∧
        Forest.drain otherHandle none otherAfter.forest = .ok rivals otherRest ∧
        Combination.ShownAlike (node.children.map (Node.meaning compiler.registry
          Customs.nothing (Index.Ledger.ofCalls calls).contents)) shown rivals := by
  have described := builtIn.described Customs.nothing
  have countableNode := countable node List.mem_cons_self
  have countableOther := countable other (List.mem_cons_of_mem _ List.mem_cons_self)
  have telling := fun shared => (sharing shared).1
  have built := built_of_new (fun shared => (sharing shared).2.2.1) compiled
  obtain ⟨otherHandle, otherAfter, builtOther⟩ := build_rearranged produced builtIn resolved
    rearranged (fun shared => (sharing shared).2.1) built otherBench
  have compiledOther := compile_fresh (fun shared => (sharing shared).2.2.2) otherBench
  rw [builtOther] at compiledOther
  have sound := window_children produced.serves described countableNode telling resolved built
  have tracks := (build_shares produced.serves described node countableNode telling built).tracks
  have tracksOther := (build_shares produced.serves described other countableOther
    (fun shared => rearranged.telling (telling shared)) builtOther).tracks
  obtain ⟨matched, rest, listed, drained⟩ := Forest.drain_lists tracks
  obtain ⟨matchedOther, otherRest, listedOther, drainedOther⟩ := Forest.drain_lists tracksOther
  exact ⟨otherHandle, _, otherAfter, compiledOther, _, _, rest, otherRest, drained, drainedOther,
    rearranged.shownAlike resolved sound tracks.sound tracksOther.sound listed listedOther⟩

end Compiler

end Concordance
