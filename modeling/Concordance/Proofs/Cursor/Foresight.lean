import Concordance.Proofs.Cursor.Following
import Concordance.Proofs.Cursor.Unfolding

/-!
# Foresight

What a tree of cursors over stored postings will show in each document is settled by how it
stands now, whatever road it takes there.  So it follows a meaning, also where the counts of
its windows are too great to be stored as they are.
-/

namespace Concordance

namespace Forest

/-! ## Matches need children -/

section Looking

variable {forest : Forest} {children : List Handle} {doc : DocId} {found : Match}

theorem standing_of_occupied {α : Type} {read : Handle → Except Error α} {values : List α}
    (run : (forest.standing children doc).mapM read = .ok values) (occupied : values ≠ []) :
    ∃ child ∈ children, forest.hasMatch child doc = true := by
  cases here : forest.standing children doc with
  | nil =>
      rw [here] at run
      cases run
      exact absurd rfl occupied
  | cons child others =>
      have member : child ∈ forest.standing children doc := here ▸ List.mem_cons_self
      exact ⟨child, List.mem_filter.mp member⟩

/-- A combination finds something only where its children stand: all of them, or one. -/
theorem standing_of_matchAt {combination : Combination}
    (looked : forest.matchAt combination children doc = .ok (some found)) :
    if combination.needsAll then ∀ child ∈ children, forest.hasMatch child doc = true
    else ∃ child ∈ children, forest.hasMatch child doc = true := by
  cases combination with
  | conjunction =>
      injection looked with looked
      obtain ⟨all, _⟩ := Option.ite_none_right_eq_some.mp looked
      exact List.all_eq_true.mp all
  | union =>
      obtain ⟨counts, run, looked⟩ := Step.ok_of_bind looked
      injection looked with looked
      obtain ⟨occupied, _⟩ := Option.ite_none_left_eq_some.mp looked
      exact standing_of_occupied run (by simpa using occupied)
  | combine =>
      injection looked with looked
      obtain ⟨occupied, _⟩ := Option.ite_none_left_eq_some.mp looked
      obtain ⟨child, others, here⟩ := List.exists_cons_of_ne_nil (by simpa using occupied)
      have member : child ∈ forest.standing children doc := here ▸ List.mem_cons_self
      exact ⟨child, List.mem_filter.mp member⟩
  | synonym =>
      obtain ⟨lists, run, looked⟩ := Step.ok_of_bind looked
      injection looked with looked
      obtain ⟨occupied, _⟩ := Option.ite_none_left_eq_some.mp looked
      apply standing_of_occupied run
      rintro rfl
      have nothing : Extent.sort [] = [] := List.mergeSort_nil
      rw [List.flatten_nil, nothing] at occupied
      exact occupied rfl
  | window order width =>
      obtain ⟨lists, run, looked⟩ := Step.ok_of_bind looked
      intro child member
      apply Decidable.byContradiction
      intro elsewhere
      have missing : [] ∈ lists := by
        exact Step.mem_of_mapM run member (if_neg elsewhere)
      rw [Window.find_missing order width (List.any_eq_true.mpr ⟨[], missing, rfl⟩)] at looked
      cases looked

end Looking

/-! ## What a combination will find -/

/-- What a combination finds in a document once its children are moved there. -/
def foresee (forest : Forest) (combination : Combination) (children : List Handle)
    (doc : DocId) : Option Match :=
  (((moveAll moveTo doc children).endState forest).matchAt combination children doc).toOption.join

section Foresee

variable {combination : Combination} {children : List Handle} {meanings : Handle → Meaning}
  {weights : Handle → Nat} {stands : Handle → Nat → Forest → Prop}
  {frame : Forest → Forest → Prop}

/-- Two forests in which a child stands at a document look the same there. -/
theorem resembles_of_stands {move : Move} {needed : Capabilities} {forest other : Forest}
    {doc : DocId} (guided : Guided move children meanings stands frame) {child : Handle}
    (member : child ∈ children) (offered : (meanings child).capabilities.covers needed = true)
    (here : stands child doc.val forest) (there : stands child doc.val other) :
    Resembles needed doc forest other child child := by
  obtain ⟨current, first, shows⟩ := guided.shows child member _ _ here
  obtain ⟨rival, second, showsThere⟩ := guided.shows child member _ _ there
  cases first.unique second
  have onMatch : forest.hasMatch child doc = true → ∃ found, current = some found := by
    intro stands
    cases current with
    | none =>
        rw [hasMatch, shows.position] at stands
        cases stands
    | some found => exact ⟨found, rfl⟩
  refine ⟨?_, fun needs stands => ?_, fun needs stands => ?_⟩
  · rw [shows.hasMatch_eq first, showsThere.hasMatch_eq first]
  · obtain ⟨found, same⟩ := onMatch stands
    have counts := Capabilities.covers_count offered needs
    rw [shows.count found same counts, showsThere.count found same counts]
  · obtain ⟨found, same⟩ := onMatch stands
    have lists := Capabilities.covers_extents offered needs
    rw [shows.extents found same lists, showsThere.extents found same lists]

/-- Whatever road the children took to a document, a combination finds there what could be
foreseen, and that is a whole match. -/
theorem matchAt_foreseen (guided : Guided moveTo children meanings stands frame)
    (whole : ∀ child ∈ children, ∀ floor forest, stands child floor forest →
      Whole (meanings child).capabilities (weights child) child forest)
    (offered : ∀ child ∈ children,
      (meanings child).capabilities.covers combination.needs = true)
    {base : Nat} {forest : Forest} (ready : Ready children stands base forest) {doc : DocId}
    (above : base ≤ doc.val) {other : Forest}
    (standing : ∀ child ∈ children, stands child doc.val other) :
    other.matchAt combination children doc = .ok (forest.foresee combination children doc) ∧
      ∀ found, forest.foresee combination children doc = some found →
        found.doc = doc ∧
        found.Whole combination.capabilities (weightOf weights children) := by
  obtain ⟨after, moved, _, there⟩ := moveAll_stands guided (ready.later above)
  obtain ⟨looked, same, kept⟩ :=
    @matchAt_whole children (fun child => (meanings child).capabilities) weights after doc
      (fun child member => whole child member _ _ (there child member)) combination offered
  have foreseen : forest.foresee combination children doc = looked := by
    rw [foresee, Step.endState_ok moved, same]
    rfl
  have alike := matchAt_congr (List.forall₂_same.mpr fun child member =>
    resembles_of_stands guided member (offered child member) (standing child member)
      (there child member))
  rw [foreseen]
  exact ⟨alike.trans same, kept⟩

/-- What a combination will find is what it makes of its children, wherever they stand. -/
theorem foresee_sees (guided : Guided moveTo children meanings stands frame)
    (whole : ∀ child ∈ children, ∀ floor forest, stands child floor forest →
      Whole (meanings child).capabilities (weights child) child forest)
    (offered : ∀ child ∈ children,
      (meanings child).capabilities.covers combination.needs = true)
    {base : Nat} {forest : Forest} (ready : Ready children stands base forest) :
    Sees combination children meanings stands base
      (fun doc => forest.foresee combination children doc) where
  looks _ _ above standing :=
    (matchAt_foreseen guided whole offered ready above standing).1
  place doc here above same := by
    obtain ⟨_, _, _, there⟩ := moveAll_stands guided (ready.later above)
    exact ((matchAt_foreseen guided whole offered ready above there).2 here same).1
  absent doc above refused := by
    obtain ⟨after, _, _, there⟩ := moveAll_stands guided (ready.later above)
    have looked := (matchAt_foreseen guided whole offered ready above there).1
    cases same : forest.foresee combination children doc with
    | none => rfl
    | some found =>
        rw [same] at looked
        have present : ∀ child ∈ children, after.hasMatch child doc = true →
            (meanings child).found doc ≠ none := by
          intro child member stands
          rw [hasMatch_eq guided there member] at stands
          exact Option.isSome_iff_ne_none.mp stands
        refine absurd ?_ refused
        have needed := standing_of_matchAt looked
        unfold Combination.Possible
        cases needs : combination.needsAll with
        | true =>
            rw [needs] at needed
            rw [if_pos rfl]
            exact List.forall_mem_map.mpr fun child member =>
              present child member (needed child member)
        | false =>
            rw [needs] at needed
            obtain ⟨child, member, stands⟩ := needed
            rw [if_neg Bool.false_ne_true]
            exact ⟨_, List.mem_map_of_mem member, present child member stands⟩

end Foresee

/-! ## Combinations that follow what they see -/

/-- Where a combination stands that was moved on: on its first match at or behind a position,
with its children ready to go on from there. -/
structure Advanced (parent : Composite) (found : DocId → Option Match)
    (stands : Handle → Nat → Forest → Prop) (handle : Handle) (floor : Nat) (forest : Forest)
    (current : Option Match) : Prop where
  bound : handle.index < forest.cursors.size
  here : forest.cursor handle = .composite { parent with current := current }
  first : First found floor current
  ready : ∀ found, current = some found → Ready parent.children stands found.doc.val forest

section Composite

variable {parent : Composite} {found : DocId → Option Match} {meanings : Handle → Meaning}
  {starts : Handle → Nat} {stands : Handle → Nat → Forest → Prop} {handle : Handle}
  {start floor : Nat} {forest : Forest} {current : Option Match}

theorem Advanced.position_eq
    (advanced : Advanced parent found stands handle floor forest current) :
    forest.position handle = current.map Match.doc := (shows_composite advanced.here).position

theorem Advanced.raise (advanced : Advanced parent found stands handle floor forest current)
    {higher : Nat} (above : floor ≤ higher)
    (reached : ∀ doc, forest.position handle = some doc → higher ≤ doc.val) :
    Advanced parent found stands handle higher forest current :=
  { advanced with
    first := advanced.first.raise above fun doc same =>
      reached doc (advanced.position_eq.trans same) }

variable
  (follows : ∀ child ∈ parent.children,
    Follows (meanings child) (starts child) child (stands child))
  (inside : ∀ child ∈ parent.children, start ≤ starts child ∧ child.index < handle.index)

include follows inside

theorem Advanced.frame {lower upper : Nat} {other : Forest} (behind : start ≤ handle.index)
    (advanced : Advanced parent found stands handle floor forest current)
    (outside : Outside lower upper forest other) (apart : handle.index < lower ∨ upper ≤ start) :
    Advanced parent found stands handle floor other current where
  bound := outside.size ▸ advanced.bound
  here := (outside.same handle (by omega)).trans advanced.here
  first := advanced.first
  ready here same child member := by
    obtain ⟨low, below, standing⟩ := advanced.ready here same child member
    obtain ⟨within, before⟩ := inside child member
    exact ⟨low, below, (follows child member).frame standing outside (by omega)⟩

/-- A combination that was given another match, with its children ready for it. -/
theorem advanced_put {other : Option Match} (bound : handle.index < forest.cursors.size)
    (first : First found floor other)
    (ready : ∀ here, other = some here → Ready parent.children stands here.doc.val forest) :
    Advanced parent found stands handle floor
      (forest.put handle (.composite { parent with current := other })) other where
  bound := (size_put ..).symm ▸ bound
  here := cursor_put_self bound _
  first := first
  ready here same child member := by
    obtain ⟨low, below, standing⟩ := ready here same child member
    exact ⟨low, below, (follows child member).frame standing
      (Outside.of_put forest _ (Nat.le_refl _) (Nat.lt_succ_self _))
      (.inl (inside child member).2)⟩

variable
  (apart : ∀ first ∈ parent.children, ∀ second ∈ parent.children,
    first = second ∨ first.index < starts second ∨ second.index < starts first)
  {base : Nat} (sees : Sees parent.combination parent.children meanings stands base found)
  (low : ∀ doc : DocId, doc.val + 1 < base → found doc = none)

include apart sees low

theorem Advanced.moves (behind : start ≤ handle.index)
    (advanced : Advanced parent found stands handle floor forest current) {depth : Nat}
    (within : handle.index < depth + 1) {target : DocId} (above : floor ≤ target.val) :
    ∃ after, moveWithin (depth + 1) handle target forest = .ok () after ∧
      (∃ next, Advanced parent found stands handle target.val after next) ∧
      Outside start (handle.index + 1) forest after := by
  rcases below_or_stays current target with ⟨here, rfl, below⟩ | stays
  · have deep : ∀ child ∈ parent.children,
        ∃ deeper, child.index < deeper ∧ moveWithin depth child = moveWithin deeper child :=
      fun child member => ⟨depth, by have := (inside child member).2; omega, rfl⟩
    have higher : base ≤ target.val := by
      apply Nat.le_of_not_lt
      intro less
      have nowhere := low here.doc (by rw [DocId.lt_iff] at below; omega)
      rw [advanced.first.some_parts.2.1] at nowhere
      cases nowhere
    obtain ⟨next, after, run, outside, first, standing⟩ :=
      seek_first (guided_of_follows follows deep inside apart) sees higher
        ((advanced.ready here rfl).later (Nat.le_of_lt below))
    refine ⟨_, by rw [moveWithin_seeks advanced.here rfl below, run], ⟨next, ?_⟩, ?_⟩
    · exact advanced_put follows inside (outside.size ▸ advanced.bound) first
        fun here same child member => ⟨_, Nat.le_refl _, standing here same child member⟩
    · exact (outside.widen (Nat.le_refl _) (Nat.le_succ _)).trans
        (Outside.of_put after _ behind (Nat.lt_succ_self _))
  · have raised := advanced.raise above fun doc shown =>
      reached_of_stays stays (advanced.position_eq.symm.trans shown)
    exact ⟨forest, moveWithin_run advanced.here stays, ⟨current, raised⟩, Outside.refl _ _ _⟩

/-- A combination follows what it sees from a document on, if it finds nothing before. -/
theorem composite_follows (behind : start ≤ handle.index) :
    Follows ⟨parent.combination.capabilities, found⟩ start handle
      (fun floor forest =>
        ∃ current, Advanced parent found stands handle floor forest current) where
  shows := by
    rintro floor forest ⟨current, advanced⟩
    exact ⟨current, advanced.first, shows_composite advanced.here⟩
  raise := by
    rintro floor higher forest ⟨current, advanced⟩ above reached
    exact ⟨current, advanced.raise above reached⟩
  frame := by
    rintro floor lower upper forest other ⟨current, advanced⟩ outside clear
    exact ⟨current, advanced.frame follows inside behind outside clear⟩
  moves := by
    rintro floor depth forest target within ⟨current, advanced⟩ above
    obtain ⟨depth, rfl⟩ := Nat.exists_eq_add_one_of_ne_zero (Nat.ne_zero_of_lt within)
    exact advanced.moves follows inside apart sees low behind within above
  exhausts := by
    rintro floor depth forest within ⟨current, advanced⟩
    obtain ⟨depth, rfl⟩ := Nat.exists_eq_add_one_of_ne_zero (Nat.ne_zero_of_lt within)
    rw [exhaustWithin, advanced.here]
    refine ⟨⟨none, advanced_put follows inside advanced.bound (.nowhere fun doc impossible => ?_)
      fun _ impossible => by cases impossible⟩,
      Outside.of_put forest _ behind (Nat.lt_succ_self _)⟩
    exact absurd doc.val_lt (Nat.not_lt.mpr impossible)

end Composite

/-! ## Trees -/

/-- A cursor over stored postings follows a meaning and can be moved wherever it does. -/
structure Foreseen (offered : Capabilities) (weight start : Nat) (handle : Handle)
    (meaning : Meaning) (stands : Nat → Forest → Prop) : Prop where
  capabilities : meaning.capabilities = offered
  follows : Follows meaning start handle stands
  poised : ∀ floor forest, stands floor forest →
    Poised .stored forest offered weight start handle floor

variable {forest : Forest} {offered : Capabilities} {weight start floor : Nat} {handle : Handle}

/-- Cursors over stored postings never fail, so following and being poised go together. -/
theorem Follows.foreseen {meaning : Meaning} {stands : Nat → Forest → Prop}
    (follows : Follows meaning start handle stands) (offers : meaning.capabilities = offered) :
    Foreseen offered weight start handle meaning
      (fun floor forest => stands floor forest ∧
        Poised .stored forest offered weight start handle floor) where
  capabilities := offers
  follows :=
    { shows := fun both => follows.shows both.1
      raise := fun both above reached =>
        ⟨follows.raise both.1 above reached, both.2.raise above reached⟩
      frame := fun both outside apart =>
        ⟨follows.frame both.1 outside apart, both.2.frame outside apart⟩
      moves := by
        rintro floor depth forest target within ⟨standing, poised⟩ above
        obtain ⟨after, run, there, outside⟩ := follows.moves within standing above
        have drives := moveWithin_drives depth forest _ _ _ handle floor target within poised above
        exact ⟨after, run, ⟨there, (drives.of_ok run).1⟩, outside⟩
      exhausts := by
        rintro floor depth forest within ⟨standing, poised⟩
        obtain ⟨ended, outside⟩ := follows.exhausts within standing
        exact ⟨⟨ended, (exhaustWithin_poised within poised).1⟩, outside⟩ }
  poised _ _ both := both.2

/-- A feature follows the documents of its child. -/
theorem feature_follows {wrapper : Feature} {meaning : Meaning} {inner : Nat}
    {stands : Nat → Forest → Prop} (counts : offered.count = true)
    (below : wrapper.child.index < handle.index)
    (behind : start ≤ handle.index)
    (foreseen : Foreseen offered inner start wrapper.child meaning stands) :
    Follows meaning.feature start handle
      (fun floor forest => handle.index < forest.cursors.size ∧
        forest.cursor handle = .feature wrapper ∧ stands floor forest) where
  shows := by
    rintro floor forest ⟨bound, here, standing⟩
    obtain ⟨current, first, shows⟩ := foreseen.follows.shows standing
    refine ⟨current, first, ?_, ?_, fun _ _ impossible => (nomatch impossible),
      fun _ _ impossible => (nomatch impossible)⟩
    · rw [Forest.capabilities, here]
      rfl
    · rw [Poised.position_feature here (foreseen.poised _ _ standing) counts]
      exact shows.position
  raise := by
    rintro floor higher forest ⟨bound, here, standing⟩ above reached
    refine ⟨bound, here, foreseen.follows.raise standing above fun doc shown => reached doc ?_⟩
    rw [Poised.position_feature here (foreseen.poised _ _ standing) counts]
    exact shown
  frame := by
    rintro floor lower upper forest other ⟨bound, here, standing⟩ outside apart
    exact ⟨outside.size ▸ bound, (outside.same handle (by omega)).trans here,
      foreseen.follows.frame standing outside (by omega)⟩
  moves := by
    rintro floor depth forest target within ⟨bound, here, standing⟩ above
    obtain ⟨depth, rfl⟩ := Nat.exists_eq_add_one_of_ne_zero (Nat.ne_zero_of_lt within)
    have deep : wrapper.child.index < depth := by omega
    obtain ⟨after, run, there, outside⟩ := foreseen.follows.moves deep standing above
    refine ⟨after, (moveWithin_feature target here).trans run, ⟨outside.size ▸ bound, ?_, there⟩,
      outside.widen (Nat.le_refl _) (by omega)⟩
    exact (outside.same handle (.inr (by omega))).trans here
  exhausts := by
    rintro floor depth forest within ⟨bound, here, standing⟩
    obtain ⟨depth, rfl⟩ := Nat.exists_eq_add_one_of_ne_zero (Nat.ne_zero_of_lt within)
    have deep : wrapper.child.index < depth := by omega
    obtain ⟨ended, outside⟩ := foreseen.follows.exhausts deep standing
    rw [exhaustWithin, here]
    refine ⟨⟨outside.size ▸ bound, ?_, ended⟩, outside.widen (Nat.le_refl _) (by omega)⟩
    exact (outside.same handle (.inr (by omega))).trans here

/-- What a combination will find: the match on which it stands, and what it will make of its
children behind that. -/
def prospect (forest : Forest) (parent : Composite) (here : Match) (doc : DocId) : Option Match :=
  if here.doc < doc then forest.foresee parent.combination parent.children doc
  else if doc = here.doc then some here else none

theorem prospect_ahead {parent : Composite} {here : Match} {doc : DocId}
    (ahead : here.doc < doc) : forest.prospect parent here doc =
      forest.foresee parent.combination parent.children doc := if_pos ahead

theorem prospect_below {parent : Composite} {here : Match} {doc : DocId}
    (below : doc < here.doc) : forest.prospect parent here doc = none := by
  have behind : ¬here.doc < doc := Nat.lt_asymm below
  have different : doc ≠ here.doc := fun same => Nat.lt_irrefl _ (same ▸ below)
  rw [prospect, if_neg behind, if_neg different]

theorem prospect_first {parent : Composite} {here : Match} (reached : floor ≤ here.doc.val) :
    First (forest.prospect parent here) floor (some here) := by
  refine .somewhere here reached ?_ fun doc _ below => prospect_below below
  have still : ¬here.doc < here.doc := Nat.lt_irrefl _
  rw [prospect, if_neg still, if_pos rfl]

/-- What a combination will find behind the match on which it stands is what it makes of its
children. -/
theorem prospect_sees {parent : Composite} {here : Match} {meanings : Handle → Meaning}
    {stands : Handle → Nat → Forest → Prop}
    (sees : Sees parent.combination parent.children meanings stands (here.doc.val + 1)
      (fun doc => forest.foresee parent.combination parent.children doc)) :
    Sees parent.combination parent.children meanings stands (here.doc.val + 1)
      (forest.prospect parent here) where
  looks doc other above standing := by
    rw [prospect_ahead above]
    exact sees.looks doc other above standing
  place doc found above same := by
    rw [prospect_ahead above] at same
    exact sees.place doc found above same
  absent doc above refused := by
    rw [prospect_ahead above]
    exact sees.absent doc above refused

section Siblings

variable {parent : Composite} {offers : Handle → Capabilities} {meanings : Handle → Meaning}
  {weights starts : Handle → Nat} {stands : Handle → Nat → Forest → Prop}
  (foreseen : ∀ child ∈ parent.children,
    Foreseen (offers child) (weights child) (starts child) child (meanings child) (stands child))
  (siblings : Siblings parent.combination parent.children offers starts start handle.index)

include foreseen siblings

/-- What a combination will make of children over stored postings is settled by how they stand
now. -/
theorem Foreseen.sees {base : Nat} (ready : Ready parent.children stands base forest) :
    Sees parent.combination parent.children meanings stands base
      (fun doc => forest.foresee parent.combination parent.children doc) := by
  have guided := @guided_of_follows moveTo _ _ _ _ start handle.index
    (fun child member => (foreseen child member).follows)
    (fun child _ => ⟨child.index + 1, Nat.lt_succ_self _, rfl⟩) siblings.inside siblings.apart
  have same := fun child member => (foreseen child member).capabilities
  refine @foresee_sees _ _ _ weights _ _ guided (fun child member floor other standing => ?_)
    (fun child member => ?_) _ _ ready
  · rw [same child member]
    exact ((foreseen child member).poised floor other standing).whole
  · rw [same child member]
    exact siblings.offered child member

/-- A combination of cursors over stored postings follows the match on which it stands and what
comes behind it. -/
theorem Foreseen.composite (behind : start ≤ handle.index)
    (bound : handle.index < forest.cursors.size)
    (here : forest.cursor handle = .composite parent)
    (reached : ∀ found, parent.current = some found → floor ≤ found.doc.val)
    (ready : ∀ found, parent.current = some found →
      Ready parent.children stands found.doc.val forest) :
    ∃ found, Follows ⟨parent.combination.capabilities, found⟩ start handle
        (fun floor forest =>
          ∃ current, Advanced parent found stands handle floor forest current) ∧
      Advanced parent found stands handle floor forest parent.current := by
  have follows := fun child member => (foreseen child member).follows
  cases shown : parent.current with
  | none =>
      -- A combination that is done stays so: there is no document behind it.
      have sees : Sees parent.combination parent.children meanings stands
          18446744073709551616 (fun _ => none) :=
        ⟨fun doc _ above => absurd doc.val_lt (Nat.not_lt.mpr above),
          fun _ _ _ impossible => (nomatch impossible), fun _ _ _ => rfl⟩
      refine ⟨_, composite_follows follows siblings.inside siblings.apart sees
        (fun _ _ => rfl) behind, bound, ?_, .nowhere fun _ _ => rfl, ?_⟩
      · rw [here, ← shown]
      · exact fun _ impossible => (nomatch impossible)
  | some found =>
      have readyHere := ready found shown
      have sees := prospect_sees
        (Foreseen.sees foreseen siblings (readyHere.later (Nat.le_succ _)))
      refine ⟨_, composite_follows follows siblings.inside siblings.apart sees
        (fun doc before => prospect_below (Nat.lt_of_succ_lt_succ before)) behind, bound, ?_,
        prospect_first (reached found shown), ?_⟩
      · rw [here, ← shown]
      · rintro _ ⟨⟩
        exact readyHere

end Siblings

/-- Every cursor over stored postings follows some meaning. -/
theorem Poised.foreseen
    (poised : Poised .stored forest offered weight start handle floor) :
    ∃ meaning stands, Foreseen offered weight start handle meaning stands ∧
      stands floor forest := by
  have whole := poised
  induction poised with
  | null behind bound here =>
      exact ⟨.absent, _, Follows.foreseen tracks_follows rfl, .null behind bound here, whole⟩
  | leaf behind bound here stands light =>
      rename_i leaf
      obtain ⟨_, interval, withExtents, postings, first⟩ := stands
      have offers : (Meaning.source postings withExtents).capabilities = leaf.capabilities := by
        rw [Leaf.capabilities, first.first.mode]
        rfl
      exact ⟨_, _, Follows.foreseen tracks_follows offers, .leaf behind bound here first, whole⟩
  | feature bound here below counts poised induction =>
      obtain ⟨meaning, stands, foreseen, standing⟩ := induction poised
      have behind := Nat.le_of_lt (Nat.lt_of_le_of_lt poised.start_le below)
      have follows := feature_follows counts below behind foreseen
      exact ⟨meaning.feature, _, follows.foreseen rfl, ⟨bound, here, standing⟩, whole⟩
  | composite behind bound here siblings light reached kept low poised induction =>
      rename_i parent offers weights starts floors
      have : Inhabited Meaning := ⟨.absent⟩
      choose! meanings stands foreseen standing using
        fun child member => induction child member (poised child member)
      obtain ⟨found, follows, advanced⟩ := Foreseen.composite foreseen siblings behind bound here
        reached fun found same child member =>
          ⟨floors child, low found same child member, standing child member⟩
      exact ⟨_, _, follows.foreseen rfl, ⟨_, advanced⟩, whole⟩

end Forest

end Concordance
