import Concordance.Compile.Basic
import Concordance.Proofs.Compile.Implementation

/-!
# What a query will offer

Whether a tree of nodes can be built, and what its cursor will offer, can be told
beforehand from its operators and its parameters.  Of the index only the keys
matter: a key that is missing offers its extents in any case, and one that is
there offers them on request.
-/

namespace Concordance

/-- What a cursor will offer, with a bound on the extents that it has in a document. -/
structure Offer where
  capabilities : Capabilities
  weight : Nat

theorem granted_of_ite {α : Type} {condition : Prop} [Decidable condition]
    {result : Except ErrorKind α} {kind : ErrorKind} {value : α}
    (same : (if condition then result else .error kind) = .ok value) :
    condition ∧ result = .ok value := by
  by_cases holds : condition
  · rw [if_pos holds] at same
    exact ⟨holds, same⟩
  · rw [if_neg holds] at same
    cases same

/-- What a combination of cursors offers. -/
def Combination.offer (combination : Combination) (children : List Offer) :
    Except ErrorKind Offer :=
  if children ≠ [] ∧ ∀ child ∈ children, child.capabilities.covers combination.needs = true then
    .ok ⟨combination.capabilities, (children.map Offer.weight).sum⟩
  else .error .unsupportedNode

/-- What a feature offers. -/
def Feature.offer (children : List Offer) : Except ErrorKind Offer :=
  if children.length = 1 ∧
      ∀ child ∈ children, child.capabilities.covers Capabilities.onlyCount = true then
    .ok ⟨Capabilities.onlyEstimator, 0⟩
  else .error .unsupportedNode

/-- The bytes of the block of a key. -/
def Index.bulk (index : Index) (key : Key) : Nat :=
  match index.block? key with
  | .ok (some block) => block.length
  | _ => 0

/-- What the leaf of a key offers, or what stands for it. -/
def Index.offer (index : Index) (key : Key) (withExtents : Bool) : Offer :=
  { capabilities :=
      if index.contains key && !withExtents then Capabilities.countAndAggregate
      else Capabilities.allButEstimator
    weight := index.bulk key }

instance (node : Node) : Decidable node.NamesKey := inferInstanceAs (Decidable (_ = true))

instance (node : Node) : Decidable node.AsksWidth :=
  inferInstanceAs (Decidable (∀ width ∈ node.getLong? Node.defaultName,
    0 ≤ width ∧ width ≤ BuildRequest.maxWidth))

/-- What the cursor of a node with some implementation offers. -/
def Implementation.offer (implementation : Implementation) (index : Index) (node : Node)
    (children : List Offer) : Except ErrorKind Offer :=
  match implementation with
  | .source withExtents =>
    if node.NamesKey then .ok (index.offer (Key.ofText node.leafKey) withExtents)
    else .error .unsupportedNode
  | .window order =>
    if node.AsksWidth then (Combination.window order (node.windowWidth order)).offer children
    else .error .invalidArgument
  | .synonym => Combination.synonym.offer children
  | .conjunction => Combination.conjunction.offer children
  | .union => Combination.union.offer children
  | .combine => Combination.combine.offer children
  | .feature => Feature.offer children
  | .null => .ok ⟨Capabilities.allButEstimator, 0⟩
  | .custom _ => .error .internal

/-- The bytes of the block in which the leaf of a node stands. -/
def Implementation.bulk (implementation : Implementation) (index : Index) (node : Node) : Nat :=
  match implementation with
  | .source _ => index.bulk (Key.ofText node.leafKey)
  | _ => 0

namespace Node

mutual

/-- What the cursor of a tree offers, or why there is none. -/
def offer (registry : Registry) (shared : Bool) (index : Index) : Node → Except ErrorKind Offer
  | ⟨operator, parameters, children⟩ => do
    let below ← offers registry shared index [] children
    match registry.resolve? operator with
    | some implementation => implementation.offer index ⟨operator, parameters, children⟩ below
    | none => .error .unsupportedNode

/-- What the cursors of siblings offer.  With sharing, the first of those with one
text stands for all of them. -/
def offers (registry : Registry) (shared : Bool) (index : Index)
    (known : List (String × Offer)) : List Node → Except ErrorKind (List Offer)
  | [] => pure []
  | child :: children => do
    match if shared then known.lookup child.text else none with
    | some held =>
      let later ← offers registry shared index known children
      pure (held :: later)
    | none =>
      let first ← offer registry shared index child
      let later ← offers registry shared index ((child.text, first) :: known) children
      pure (first :: later)

end

mutual

/-- The bytes of the blocks in which the leaves of a tree stand. -/
def bulk (registry : Registry) (index : Index) : Node → Nat
  | ⟨operator, parameters, children⟩ =>
    bulks registry index children +
      match registry.resolve? operator with
      | some implementation => implementation.bulk index ⟨operator, parameters, children⟩
      | none => 0

def bulks (registry : Registry) (index : Index) : List Node → Nat
  | [] => 0
  | child :: children => bulk registry index child + bulks registry index children

end

end Node

/-! ## The weight of an offer -/

theorem Combination.offer_weight {combination : Combination} {children : List Offer} {offer : Offer}
    (offered : combination.offer children = .ok offer) :
    offer.weight = (children.map Offer.weight).sum := by
  cases (granted_of_ite offered).2
  rfl

/-- An offer weighs no more than those that it is made from, or than the block of a leaf. -/
theorem Implementation.offer_weight {implementation : Implementation} {index : Index} {node : Node}
    {children : List Offer} {offer : Offer}
    (offered : implementation.offer index node children = .ok offer) :
    offer.weight ≤ (children.map Offer.weight).sum + implementation.bulk index node := by
  have combined {combination : Combination} (made : combination.offer children = .ok offer) :
      offer.weight ≤ (children.map Offer.weight).sum + implementation.bulk index node :=
    Nat.le_add_right_of_le (Nat.le_of_eq (Combination.offer_weight made))
  cases implementation with
  | source withExtents =>
      cases (granted_of_ite offered).2
      exact Nat.le_add_left _ _
  | window order => exact combined (granted_of_ite offered).2
  | synonym => exact combined offered
  | conjunction => exact combined offered
  | union => exact combined offered
  | combine => exact combined offered
  | feature =>
      cases (granted_of_ite offered).2
      exact Nat.zero_le _
  | null =>
      cases offered
      exact Nat.zero_le _
  | custom build => cases offered

namespace Node

variable {registry : Registry} {index : Index}

mutual

/-- A tree weighs no more than the blocks of its leaves. -/
theorem offer_weight : (node : Node) → {offer : Offer} →
    (offered : node.offer registry false index = .ok offer) →
    offer.weight ≤ node.bulk registry index
  | ⟨operator, parameters, children⟩, offer, offered => by
    rw [Node.offer] at offered
    obtain ⟨below, known, offered⟩ := Step.ok_of_bind offered
    have light := offers_weight children known
    rw [bulk]
    cases resolved : registry.resolve? operator with
    | none =>
        rw [resolved] at offered
        cases offered
    | some implementation =>
        rw [resolved] at offered
        exact (Implementation.offer_weight offered).trans (Nat.add_le_add_right light _)

theorem offers_weight : (children : List Node) → {known : List (String × Offer)} →
    {below : List Offer} → (offered : offers registry false index known children = .ok below) →
    (below.map Offer.weight).sum ≤ bulks registry index children
  | [], known, below, offered => by
    cases offered
    exact Nat.zero_le _
  | child :: children, known, below, offered => by
    rw [offers, if_neg Bool.false_ne_true] at offered
    obtain ⟨first, made, offered⟩ := Step.ok_of_bind offered
    obtain ⟨later, rest, same⟩ := Step.ok_of_bind offered
    cases same
    rw [List.map_cons, List.sum_cons, bulks]
    exact Nat.add_le_add (offer_weight child made) (offers_weight children rest)

end

end Node

/-! ## Two indexes -/

/-- Outcomes that are refused for one kind of cause, or granted alike. -/
inductive Agreeing {α : Type} (alike : α → α → Prop) :
    Except ErrorKind α → Except ErrorKind α → Prop where
  | refused (kind : ErrorKind) : Agreeing alike (.error kind) (.error kind)
  | granted {first second : α} (same : alike first second) :
      Agreeing alike (.ok first) (.ok second)

theorem Agreeing.bind {α β : Type} {alike : α → α → Prop} {final : β → β → Prop}
    {first second : Except ErrorKind α} {next other : α → Except ErrorKind β}
    (begun : Agreeing alike first second)
    (later : ∀ left right, alike left right → Agreeing final (next left) (other right)) :
    Agreeing final (first >>= next) (second >>= other) := by
  cases begun with
  | refused kind => exact .refused kind
  | granted same => exact later _ _ same

theorem Agreeing.kind_eq {α : Type} {alike : α → α → Prop} {kind other : ErrorKind}
    (agreeing : Agreeing alike (.error kind) (.error other)) : kind = other := by
  cases agreeing
  rfl

theorem agreeing_ite {α : Type} {alike : α → α → Prop} {condition rival : Prop}
    [Decidable condition] [Decidable rival] {first second : Except ErrorKind α}
    {kind : ErrorKind} (same : condition ↔ rival) (granted : Agreeing alike first second) :
    Agreeing alike (if condition then first else .error kind)
      (if rival then second else .error kind) := by
  by_cases holds : condition
  · rw [if_pos holds, if_pos (same.mp holds)]
    exact granted
  · rw [if_neg holds, if_neg (fun other => holds (same.mpr other))]
    exact .refused kind

/-- Offers that count alike, and show extents alike if that matters. -/
structure Offer.Alike (matters : Prop) (first second : Offer) : Prop where
  count : first.capabilities.count = second.capabilities.count
  extents : matters → first.capabilities.extents = second.capabilities.extents

section Needs

variable {matters : Prop} {needed : Capabilities} {firsts seconds : List Offer}
  (plain : needed.aggregate = false ∧ needed.estimator = false)
  (reads : needed.extents = true → matters)

include plain reads

theorem Offer.Alike.covers_iff {first second : Offer} (alike : first.Alike matters second) :
    first.capabilities.covers needed = true ↔ second.capabilities.covers needed = true := by
  have extents : (first.capabilities.extents || !needed.extents) =
      (second.capabilities.extents || !needed.extents) := by
    cases wanted : needed.extents with
    | false => simp
    | true => rw [alike.extents (reads wanted)]
  unfold Capabilities.covers
  rw [alike.count, extents, plain.1, plain.2]
  simp

theorem all_cover_iff (alike : List.Forall₂ (Offer.Alike matters) firsts seconds) :
    (∀ child ∈ firsts, child.capabilities.covers needed = true) ↔
      ∀ child ∈ seconds, child.capabilities.covers needed = true := by
  induction alike with
  | nil => exact Iff.rfl
  | cons here _ induction =>
      rw [List.forall_mem_cons, List.forall_mem_cons, here.covers_iff plain reads, induction]

end Needs

theorem Combination.offer_agrees {combination : Combination} {matters further : Prop}
    {firsts seconds : List Offer} (reads : combination.needs.extents = true → matters)
    (alike : List.Forall₂ (Offer.Alike matters) firsts seconds) :
    Agreeing (Offer.Alike further) (combination.offer firsts) (combination.offer seconds) := by
  have plain : combination.needs.aggregate = false ∧ combination.needs.estimator = false := by
    cases combination <;> exact ⟨rfl, rfl⟩
  have occupied : firsts ≠ [] ↔ seconds ≠ [] := by
    cases alike <;> simp
  exact agreeing_ite (and_congr occupied (all_cover_iff plain reads alike))
    (.granted ⟨rfl, fun _ => rfl⟩)

theorem Feature.offer_agrees {matters further : Prop} {firsts seconds : List Offer}
    (alike : List.Forall₂ (Offer.Alike matters) firsts seconds) :
    Agreeing (Offer.Alike further) (Feature.offer firsts) (Feature.offer seconds) := by
  have plain : Capabilities.onlyCount.aggregate = false ∧
      Capabilities.onlyCount.estimator = false := ⟨rfl, rfl⟩
  have cover := all_cover_iff plain (fun impossible => nomatch impossible) alike
  exact agreeing_ite (and_congr (by rw [alike.length_eq]) cover) (.granted ⟨rfl, fun _ => rfl⟩)

namespace Node

/-- Unless a node is a leaf without extents, it offers the same over all indexes.  Such a
leaf does so over those that have its key, and over those that do not. -/
def Comparable (registry : Registry) (first second : Index) (node : Node) : Prop :=
  registry.resolve? node.operator = some (.source false) →
    first.contains (Key.ofText node.leafKey) = second.contains (Key.ofText node.leafKey)

/-- Whether a node asks its children for extents. -/
def ReadsExtents (registry : Registry) (node : Node) : Prop :=
  registry.resolve? node.operator = some .synonym ∨
    ∃ order, registry.resolve? node.operator = some (.window order)

/-- A tree in which all children that are asked for extents offer the same over two
indexes. -/
inductive Agrees (registry : Registry) (first second : Index) : Node → Prop where
  | intro (node : Node) (children : ∀ child ∈ node.children, Agrees registry first second child)
      (comparable : node.ReadsExtents registry →
        ∀ child ∈ node.children, child.Comparable registry first second) :
      Agrees registry first second node

variable {registry : Registry} {shared : Bool} {first second : Index}

theorem implementation_agrees {node : Node} {implementation : Implementation}
    (resolved : registry.resolve? node.operator = some implementation) {below others : List Offer}
    (alike : List.Forall₂ (Offer.Alike (node.ReadsExtents registry)) below others) :
    Agreeing (Offer.Alike (node.Comparable registry first second))
      (implementation.offer first node below) (implementation.offer second node others) := by
  cases implementation with
  | source withExtents =>
      refine agreeing_ite Iff.rfl (.granted ?_)
      cases withExtents with
      | true => constructor <;> simp [Index.offer]
      | false =>
          refine ⟨?_, fun comparable => ?_⟩
          · simp only [Index.offer]
            split <;> split <;> rfl
          · simp only [Index.offer, comparable resolved]
  | window order =>
      exact agreeing_ite Iff.rfl (Combination.offer_agrees (fun _ => .inr ⟨order, resolved⟩) alike)
  | synonym => exact Combination.offer_agrees (fun _ => .inl resolved) alike
  | conjunction => exact Combination.offer_agrees (fun impossible => nomatch impossible) alike
  | union => exact Combination.offer_agrees (fun impossible => nomatch impossible) alike
  | combine => exact Combination.offer_agrees (fun impossible => nomatch impossible) alike
  | feature => exact Feature.offer_agrees alike
  | null => exact .granted ⟨rfl, fun _ => rfl⟩
  | custom build => exact .refused .internal

theorem lookup_alike {matters : Prop} {known others : List (String × Offer)}
    (alike : List.Forall₂ (fun entry other => entry.1 = other.1 ∧
      entry.2.Alike matters other.2) known others) (text : String) :
    Option.Rel (Offer.Alike matters) (known.lookup text) (others.lookup text) := by
  induction alike with
  | nil => exact .none
  | @cons entry other _ _ here _ induction =>
      obtain ⟨name, offer⟩ := entry
      obtain ⟨otherName, otherOffer⟩ := other
      obtain ⟨same, like⟩ := here
      dsimp only at same like
      subst same
      rw [List.lookup_cons, List.lookup_cons]
      cases text == name with
      | true => exact .some like
      | false => exact induction

mutual

/-- Whether a tree is built, and what it offers, is the same over two indexes. -/
theorem offer_agrees : (node : Node) → (agrees : node.Agrees registry first second) →
    Agreeing (Offer.Alike (node.Comparable registry first second))
      (node.offer registry shared first) (node.offer registry shared second)
  | ⟨operator, parameters, children⟩, .intro _ inside comparable => by
    rw [offer, offer]
    apply (offers_agree children inside comparable .nil).bind
    intro below others alike
    cases resolved : registry.resolve? operator with
    | none => exact .refused .unsupportedNode
    | some implementation => exact implementation_agrees resolved alike

theorem offers_agree : (children : List Node) →
    (inside : ∀ child ∈ children, child.Agrees registry first second) → {matters : Prop} →
    (comparable : matters → ∀ child ∈ children, child.Comparable registry first second) →
    {known others : List (String × Offer)} →
    (alike : List.Forall₂ (fun entry other => entry.1 = other.1 ∧
      entry.2.Alike matters other.2) known others) →
    Agreeing (List.Forall₂ (Offer.Alike matters)) (offers registry shared first known children)
      (offers registry shared second others children)
  | [], _, _, _, _, _, _ => by
    rw [offers, offers]
    exact .granted .nil
  | child :: children, inside, matters, comparable, known, others, alike => by
    obtain ⟨here, later⟩ := List.forall_mem_cons.mp inside
    have comparableLater := fun reads => (List.forall_mem_cons.mp (comparable reads)).2
    have found : Option.Rel (Offer.Alike matters) (if shared then known.lookup child.text else none)
        (if shared then others.lookup child.text else none) := by
      cases shared with
      | true => exact lookup_alike alike child.text
      | false => exact .none
    rw [offers, offers]
    generalize (if shared then known.lookup child.text else none) = held at found ⊢
    generalize (if shared then others.lookup child.text else none) = rival at found ⊢
    cases found with
    | some like =>
        apply (offers_agree children later comparableLater alike).bind
        exact fun below rest same => .granted (.cons like same)
    | none =>
        apply (offer_agrees child here).bind
        intro offer other same
        have like : offer.Alike matters other :=
          ⟨same.count, fun reads => same.extents (comparable reads child List.mem_cons_self)⟩
        have listed : List.Forall₂ (fun entry rival : String × Offer => entry.1 = rival.1 ∧
            entry.2.Alike matters rival.2) ((child.text, offer) :: known)
            ((child.text, other) :: others) := .cons ⟨rfl, like⟩ alike
        apply (offers_agree children later comparableLater listed).bind
        exact fun below rest also => .granted (.cons like also)

end

end Node

end Concordance
