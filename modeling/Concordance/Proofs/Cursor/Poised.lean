import Concordance.Proofs.Cursor.Driven
import Concordance.Proofs.Cursor.Law
import Concordance.Proofs.Cursor.Motion

/-!
# Cursors that can be moved on

A tree of cursors over leaves that keep a law can be moved from its position on.
Wherever it stands it shows a whole match, and a move of it fails for no other
cause than one of its leaves.
-/

namespace Concordance

theorem Match.Whole.heavier {offered : Capabilities} {light heavy : Nat} {found : Match}
    (whole : found.Whole offered light) (above : light ≤ heavy) : found.Whole offered heavy where
  occurs offers bound := whole.occurs offers (Nat.lt_of_le_of_lt above bound)
  extents offers :=
    ⟨(whole.extents offers).1, (whole.extents offers).2.1,
      Nat.le_trans (whole.extents offers).2.2 above⟩

namespace Forest

/-- A combination over children that offer what it needs.  Each stands in a stretch
of its own before `limit`, unless two of them are the same. -/
structure Siblings (combination : Combination) (children : List Handle)
    (offers : Handle → Capabilities) (starts : Handle → Nat) (start limit : Nat) : Prop where
  offered : ∀ child ∈ children, (offers child).covers combination.needs = true
  inside : ∀ child ∈ children, start ≤ starts child ∧ child.index < limit
  apart : ∀ first ∈ children, ∀ second ∈ children,
    first = second ∨ first.index < starts second ∨ second.index < starts first

theorem Siblings.widen {combination : Combination} {children : List Handle}
    {offers : Handle → Capabilities} {starts : Handle → Nat} {start limit lower : Nat}
    (siblings : Siblings combination children offers starts start limit) (below : lower ≤ start) :
    Siblings combination children offers starts lower limit :=
  { siblings with
    inside := fun child member =>
      ⟨Nat.le_trans below (siblings.inside child member).1, (siblings.inside child member).2⟩ }

/-- The cursor at a handle, with those it is built over from `start` on, can be moved
from a position on.  It offers something, and its matches have some weight at most. -/
inductive Poised (law : Leaf.Law) (forest : Forest) :
    Capabilities → Nat → Nat → Handle → Nat → Prop where
  | null {weight start floor : Nat} {handle : Handle} {key : String} (behind : start ≤ handle.index)
      (bound : handle.index < forest.cursors.size) (here : forest.cursor handle = .null key) :
      Poised law forest Capabilities.allButEstimator weight start handle floor
  | leaf {weight start floor : Nat} {handle : Handle} {leaf : Leaf} (behind : start ≤ handle.index)
      (bound : handle.index < forest.cursors.size) (here : forest.cursor handle = .leaf leaf)
      (stands : law.Stands floor leaf) (light : leaf.weight ≤ weight) :
      Poised law forest leaf.capabilities weight start handle floor
  | feature {weight inner start floor : Nat} {handle : Handle} {wrapper : Feature}
      {offered : Capabilities} (bound : handle.index < forest.cursors.size)
      (here : forest.cursor handle = .feature wrapper)
      (below : wrapper.child.index < handle.index) (counts : offered.count = true)
      (poised : Poised law forest offered inner start wrapper.child floor) :
      Poised law forest Capabilities.onlyEstimator weight start handle floor
  | composite {weight start floor : Nat} {handle : Handle} {composite : Composite}
      {offers : Handle → Capabilities} {weights starts floors : Handle → Nat}
      (behind : start ≤ handle.index) (bound : handle.index < forest.cursors.size)
      (here : forest.cursor handle = .composite composite)
      (siblings : Siblings composite.combination composite.children offers starts start
        handle.index)
      (light : weightOf weights composite.children ≤ weight)
      (reached : ∀ found, composite.current = some found → floor ≤ found.doc.val)
      (whole : ∀ found, composite.current = some found →
        found.Whole composite.combination.capabilities weight)
      (low : ∀ found, composite.current = some found → ∀ child ∈ composite.children,
        floors child ≤ found.doc.val)
      (poised : ∀ child ∈ composite.children,
        Poised law forest (offers child) (weights child) (starts child) child (floors child)) :
      Poised law forest composite.combination.capabilities weight start handle floor

namespace Poised

variable {law : Leaf.Law} {forest : Forest} {offered : Capabilities} {weight start floor : Nat}
  {handle : Handle}

theorem start_le (poised : Poised law forest offered weight start handle floor) :
    start ≤ handle.index := by
  induction poised with
  | null behind => exact behind
  | leaf behind => exact behind
  | feature _ _ below _ _ induction => exact Nat.le_of_lt (Nat.lt_of_le_of_lt induction below)
  | composite behind => exact behind

theorem bound (poised : Poised law forest offered weight start handle floor) :
    handle.index < forest.cursors.size := by
  cases poised <;> assumption

/-- A cursor that offers counts stands for itself. -/
theorem subject_eq (poised : Poised law forest offered weight start handle floor)
    (counts : offered.count = true) : forest.subject handle = forest.cursor handle := by
  unfold subject
  cases poised with
  | null _ _ here => rw [here]
  | leaf _ _ here => rw [here]
  | feature => cases counts
  | composite _ _ here => rw [here]

theorem position_feature {wrapper : Feature} (here : forest.cursor handle = .feature wrapper)
    (poised : Poised law forest offered weight start wrapper.child floor)
    (counts : offered.count = true) : forest.position handle = forest.position wrapper.child := by
  have subject : forest.subject handle = forest.cursor wrapper.child := by
    rw [Forest.subject, here]
  rw [position, position, subject, poised.subject_eq counts]

/-- A cursor never stands below the position from which it can be moved. -/
theorem reached (poised : Poised law forest offered weight start handle floor) {doc : DocId}
    (shown : forest.position handle = some doc) : floor ≤ doc.val := by
  induction poised with
  | null _ _ here =>
      rw [position_null here] at shown
      cases shown
  | leaf _ _ here stands =>
      rw [position_leaf here] at shown
      exact law.reached stands shown
  | feature _ here _ counts poised induction =>
      rw [position_feature here poised counts] at shown
      exact induction shown
  | composite _ _ here _ _ reached =>
      rw [position_composite here] at shown
      obtain ⟨found, same, rfl⟩ := Option.map_eq_some_iff.mp shown
      exact reached found same

theorem whole_leaf {leaf : Leaf} (here : forest.cursor handle = .leaf leaf)
    (stands : law.Stands floor leaf) (light : leaf.weight ≤ weight) :
    Whole leaf.capabilities weight handle forest := by
  refine ⟨by rw [Forest.capabilities, here]; rfl, fun doc shown => ?_⟩
  rw [position_leaf here] at shown
  have running := Block.Reader.isDone_eq_false shown
  obtain ⟨count, extents⟩ := shows_leaf here running
  refine ⟨⟨doc, leaf.reader.count, leaf.reader.extents⟩, ⟨fun _ _ => ?_, fun offers => ?_⟩,
    fun _ => count, extents⟩
  · exact law.occurs stands running
  · rw [Leaf.capabilities_extents] at offers
    obtain ⟨some?, ordered, few⟩ := law.shown stands running offers
    exact ⟨some?, ordered, Nat.le_trans few light⟩

theorem whole (poised : Poised law forest offered weight start handle floor) :
    Whole offered weight handle forest := by
  cases poised with
  | null _ _ here =>
      refine ⟨by rw [Forest.capabilities, here]; rfl, fun doc shown => ?_⟩
      rw [position_null here] at shown
      cases shown
  | leaf _ _ here stands light => exact whole_leaf here stands light
  | feature _ here _ _ _ =>
      refine ⟨by rw [Forest.capabilities, here]; rfl, fun doc _ => ?_⟩
      have whole : Match.Whole Capabilities.onlyEstimator weight ⟨doc, 0, []⟩ :=
        ⟨fun offers => absurd offers Bool.false_ne_true,
          fun offers => absurd offers Bool.false_ne_true⟩
      exact ⟨⟨doc, 0, []⟩, whole, fun offers => absurd offers Bool.false_ne_true,
        fun offers => absurd offers Bool.false_ne_true⟩
  | composite _ _ here _ _ _ whole =>
      refine ⟨by rw [Forest.capabilities, here]; rfl, fun doc shown => ?_⟩
      rw [position_composite here] at shown
      obtain ⟨found, same, rfl⟩ := Option.map_eq_some_iff.mp shown
      have shows := shows_composite here
      exact ⟨found, whole found same, shows.count found same, shows.extents found same⟩

/-- A cursor can be moved from any position on that it does not stand below. -/
theorem raise (poised : Poised law forest offered weight start handle floor) {higher : Nat}
    (above : floor ≤ higher)
    (reached : ∀ doc, forest.position handle = some doc → higher ≤ doc.val) :
    Poised law forest offered weight start handle higher := by
  induction poised with
  | null behind bound here => exact .null behind bound here
  | leaf behind bound here stands light =>
      refine .leaf behind bound here (law.raise stands above fun doc shown => reached doc ?_) light
      rw [position_leaf here]
      exact shown
  | feature bound here below counts poised induction =>
      refine .feature bound here below counts (induction above fun doc shown => reached doc ?_)
      rw [position_feature here poised counts]
      exact shown
  | composite behind bound here siblings light _ whole low poised =>
      refine .composite behind bound here siblings light (fun found same => reached found.doc ?_)
        whole low poised
      rw [position_composite here, same]
      rfl

/-- Cursors outside of the tree do not matter. -/
theorem congr {other : Forest} (poised : Poised law forest offered weight start handle floor)
    (size : forest.cursors.size ≤ other.cursors.size)
    (same : ∀ place : Handle, start ≤ place.index → place.index ≤ handle.index →
      other.cursor place = forest.cursor place) :
    Poised law other offered weight start handle floor := by
  induction poised with
  | null behind bound here =>
      exact .null behind (Nat.lt_of_lt_of_le bound size)
        ((same _ behind (Nat.le_refl _)).trans here)
  | leaf behind bound here stands light =>
      exact .leaf behind (Nat.lt_of_lt_of_le bound size)
        ((same _ behind (Nat.le_refl _)).trans here) stands light
  | feature bound here below counts poised induction =>
      refine .feature (Nat.lt_of_lt_of_le bound size) ((same _ ?_ (Nat.le_refl _)).trans here)
        below counts (induction fun place behind before => same place behind (by omega))
      have behind := poised.start_le
      omega
  | composite behind bound here siblings light reached whole low poised induction =>
      refine .composite behind (Nat.lt_of_lt_of_le bound size)
        ((same _ behind (Nat.le_refl _)).trans here) siblings light reached whole low ?_
      intro child member
      obtain ⟨within, before⟩ := siblings.inside child member
      exact induction child member fun place behind upTo => same place (by omega) (by omega)

theorem widen {lower : Nat} (poised : Poised law forest offered weight start handle floor)
    (below : lower ≤ start) : Poised law forest offered weight lower handle floor := by
  induction poised with
  | null behind bound here => exact .null (Nat.le_trans below behind) bound here
  | leaf behind bound here stands light =>
      exact .leaf (Nat.le_trans below behind) bound here stands light
  | feature bound here under counts _ induction =>
      exact .feature bound here under counts (induction below)
  | composite behind bound here siblings light reached whole low poised =>
      exact .composite (Nat.le_trans below behind) bound here (siblings.widen below) light reached
        whole low poised

/-- Changes in a stretch that the tree does not reach into. -/
theorem frame {lower upper : Nat} {other : Forest}
    (poised : Poised law forest offered weight start handle floor)
    (outside : Outside lower upper forest other) (apart : handle.index < lower ∨ upper ≤ start) :
    Poised law other offered weight start handle floor :=
  poised.congr (Nat.le_of_eq outside.size.symm) fun place behind before =>
    outside.same place (by omega)

end Poised

/-! ## Moving -/

/-- What moving does to every tree with its root before some place. -/
def Drives (law : Leaf.Law) (move : Move) (limit : Nat) : Prop :=
  ∀ (forest : Forest) (offered : Capabilities) (weight start : Nat) (handle : Handle) (floor : Nat)
    (target : DocId), handle.index < limit →
    Poised law forest offered weight start handle floor → floor ≤ target.val →
    (move handle target).Ends forest
      (fun _ after => Poised law after offered weight start handle target.val ∧
        Outside start (handle.index + 1) forest after)
      law.Fails

theorem Drives.mono {law : Leaf.Law} {move : Move} {limit larger : Nat}
    (drives : Drives law move larger) (below : limit ≤ larger) : Drives law move limit :=
  fun forest offered weight start handle floor target within =>
    drives forest offered weight start handle floor target (Nat.lt_of_lt_of_le within below)

section Siblings

variable {law : Leaf.Law} {move : Move} {combination : Combination} {children : List Handle}
  {offers : Handle → Capabilities} {weights starts : Handle → Nat} {start limit : Nat}

/-- Siblings that can be moved one by one can be moved by their parent. -/
theorem driven_of_drives (drives : Drives law move limit)
    (siblings : Siblings combination children offers starts start limit) :
    Driven move children offers weights
      (fun child floor forest =>
        Poised law forest (offers child) (weights child) (starts child) child floor)
      (Outside start limit) law.Fails where
  whole _ _ _ _ poised := poised.whole
  reached _ _ _ _ _ poised := poised.reached
  raise _ _ _ _ _ poised := poised.raise
  moves child member floor target forest poised above := by
    obtain ⟨within, before⟩ := siblings.inside child member
    refine (drives forest _ _ _ child floor target before poised above).imp ?_ (fun _ => id)
    rintro _ after ⟨there, outside⟩
    refine ⟨there, outside.widen within before, ?_⟩
    intro other isChild different floor standing
    exact standing.frame outside
      (outside_of_apart (siblings.apart child member other isChild) different)
  refl := Outside.refl start limit
  trans _ _ _ first second := first.trans second

/-- A combination that stands where seeking over its children ended, in a forest that
still has their trees. -/
theorem Sought.poised {forest after : Forest} {handle : Handle} {target : DocId} {weight : Nat}
    {composite : Composite}
    (sought : Sought composite.children (fun child floor forest =>
        Poised law forest (offers child) (weights child) (starts child) child floor)
      composite.combination.capabilities (weightOf weights composite.children) target forest
      composite.current)
    (siblings : Siblings composite.combination composite.children offers starts start handle.index)
    (light : weightOf weights composite.children ≤ weight) (behind : start ≤ handle.index)
    (bound : handle.index < after.cursors.size)
    (here : after.cursor handle = .composite composite)
    (carried : ∀ child ∈ composite.children, ∀ floor,
      Poised law forest (offers child) (weights child) (starts child) child floor →
        Poised law after (offers child) (weights child) (starts child) child floor) :
    Poised law after composite.combination.capabilities weight start handle target.val := by
  choose! floors standing using sought.standing
  exact .composite behind bound here siblings light sought.behind
    (fun found same => (sought.whole found same).heavier light)
    (fun found same child member => (standing child member).2 found same)
    (fun child member => carried child member _ (standing child member).1)

/-- Seeking ends at or behind its target, with the children ready to go on. -/
theorem seek_poised (drives : Drives law move limit)
    (siblings : Siblings combination children offers starts start limit) {forest : Forest}
    {target : DocId}
    (ready : ∀ child ∈ children, ∃ floor, floor ≤ target.val ∧
      Poised law forest (offers child) (weights child) (starts child) child floor) :
    (seek move combination children target).Ends forest
      (fun next after => Outside start limit forest after ∧
        Sought children (fun child floor forest =>
            Poised law forest (offers child) (weights child) (starts child) child floor)
          combination.capabilities (weightOf weights children) target after next)
      law.Fails :=
  seek_ends (driven_of_drives drives siblings) siblings.offered ready

end Siblings

variable {law : Leaf.Law}

/-- Moving a combination to a target that it stands below. -/
theorem moveWithin_drives_below {depth : Nat} (drives : Drives law (moveWithin depth) depth)
    {forest : Forest} {weight start : Nat} {handle : Handle} {composite : Composite}
    {offers : Handle → Capabilities} {weights starts floors : Handle → Nat} {target : DocId}
    {found : Match} (within : handle.index < depth + 1) (behind : start ≤ handle.index)
    (bound : handle.index < forest.cursors.size)
    (here : forest.cursor handle = .composite composite)
    (siblings : Siblings composite.combination composite.children offers starts start handle.index)
    (light : weightOf weights composite.children ≤ weight)
    (shown : composite.current = some found) (below : found.doc < target)
    (low : ∀ child ∈ composite.children, floors child ≤ found.doc.val)
    (poised : ∀ child ∈ composite.children,
      Poised law forest (offers child) (weights child) (starts child) child (floors child)) :
    (moveWithin (depth + 1) handle target).Ends forest
      (fun _ after => Poised law after composite.combination.capabilities weight start handle
          target.val ∧
        Outside start (handle.index + 1) forest after)
      law.Fails := by
  have ready : ∀ child ∈ composite.children, ∃ floor, floor ≤ target.val ∧
      Poised law forest (offers child) (weights child) (starts child) child floor :=
    fun child member => ⟨floors child, Nat.le_trans (low child member) (Nat.le_of_lt below),
      poised child member⟩
  unfold moveWithin
  apply Step.Ends.behind (Step.get_run forest)
  rw [here]
  dsimp only
  rw [shown]
  dsimp only
  rw [if_pos below]
  apply (seek_poised (drives.mono (Nat.le_of_lt_succ within)) siblings ready).bind
  rintro next after ⟨outside, sought⟩
  let moved : Composite := { composite with current := next }
  have put := Outside.of_put after (.composite moved) behind (Nat.lt_succ_self _)
  have apart := Outside.of_put after (.composite moved) (Nat.le_refl handle.index)
    (Nat.lt_succ_self _)
  have inside : handle.index < after.cursors.size := outside.size ▸ bound
  refine Step.ends_done rfl ⟨?_, (outside.widen (Nat.le_refl _) (Nat.le_succ _)).trans put⟩
  exact @Sought.poised _ _ _ _ _ _ _ _ _ _ moved sought siblings light behind
    ((size_put ..).symm ▸ inside) (cursor_put_self inside _)
    fun child member floor poised => poised.frame apart (.inl (siblings.inside child member).2)

/-- Moving leaves every tree poised. -/
theorem moveWithin_drives (depth : Nat) : Drives law (moveWithin depth) depth := by
  induction depth with
  | zero =>
      intro _ _ _ _ _ _ _ impossible
      exact absurd impossible (Nat.not_lt_zero _)
  | succ depth induction =>
      intro forest offered weight start handle floor target within poised above
      have tree := poised
      cases poised with
      | null behind bound here =>
          exact Step.ends_done (moveWithin_null target here)
            ⟨.null behind bound here, Outside.refl _ _ _⟩
      | leaf behind bound here stands light =>
          rename_i leaf
          have moved := @law.moves _ _ target stands above
          have step := @moveWithin_leaf depth forest handle target leaf here
          cases run : Leaf.moveTo target leaf with
          | error cause after =>
              rw [run] at step
              exact Step.ends_failed step (moved.of_error run)
          | ok value after =>
              rw [run] at step
              obtain ⟨there, same, offers⟩ := moved.of_ok run
              refine Step.ends_done step ⟨offers ▸ ?_, ?_⟩
              · exact .leaf behind ((size_put ..).symm ▸ bound) (cursor_put_self bound _) there
                  (same ▸ light)
              · exact Outside.of_put forest _ behind (Nat.lt_succ_self _)
      | feature bound here below counts poised =>
          rename_i wrapper _
          unfold moveWithin
          apply Step.Ends.behind (Step.get_run forest)
          rw [here]
          refine (induction forest _ _ start wrapper.child floor target (by omega) poised above).imp
            ?_ (fun _ => id)
          rintro _ after ⟨there, outside⟩
          refine ⟨?_, outside.widen (Nat.le_refl _) (by omega)⟩
          exact .feature (outside.size ▸ bound)
            ((outside.same handle (.inr (by omega))).trans here) below counts there
      | composite behind bound here siblings light reached whole low poised =>
          rename_i composite offers weights starts floors
          have place := position_composite here
          rcases below_or_stays composite.current target with ⟨found, shown, below⟩ | stays
          · exact moveWithin_drives_below induction within behind bound here siblings light shown
              below (low found shown) poised
          · have raised := tree.raise above fun doc same =>
              reached_of_stays stays (place.symm.trans same)
            exact Step.ends_done (moveWithin_run here stays) ⟨raised, Outside.refl _ _ _⟩

/-- A cursor can be moved to any target that lies behind its position. -/
theorem moveTo_drives (limit : Nat) : Drives law moveTo limit :=
  fun forest offered weight start handle floor target _ =>
    moveWithin_drives _ forest offered weight start handle floor target (Nat.lt_succ_self _)

variable {forest : Forest} {offered : Capabilities} {weight start floor : Nat} {handle : Handle}

theorem exhaustWithin_poised {depth : Nat} (within : handle.index < depth)
    (poised : Poised law forest offered weight start handle floor) :
    Poised law (exhaustWithin depth handle forest) offered weight start handle
        18446744073709551616 ∧
      Outside start (handle.index + 1) forest (exhaustWithin depth handle forest) := by
  induction depth generalizing offered weight start handle floor with
  | zero => exact absurd within (Nat.not_lt_zero _)
  | succ depth induction =>
      rw [exhaustWithin]
      cases poised with
      | null behind bound here =>
          rw [here]
          exact ⟨.null behind bound here, Outside.refl _ _ _⟩
      | leaf behind bound here stands light =>
          rename_i leaf
          have ended : Poised law (forest.put handle (.leaf leaf.exhaust))
              leaf.exhaust.capabilities weight start handle 18446744073709551616 :=
            .leaf behind ((size_put ..).symm ▸ bound) (cursor_put_self bound _)
              (law.exhausts stands) light
          rw [here]
          exact ⟨ended, Outside.of_put forest _ behind (Nat.lt_succ_self _)⟩
      | feature bound here below counts poised =>
          obtain ⟨there, outside⟩ := induction (by omega) poised
          rw [here]
          refine ⟨?_, outside.widen (Nat.le_refl _) (by omega)⟩
          exact .feature (outside.size ▸ bound)
            ((outside.same handle (.inr (by omega))).trans here) below counts there
      | composite behind bound here siblings light reached whole low poised =>
          rename_i composite offers weights starts floors
          rw [here]
          have put := Outside.of_put forest (.composite { composite with current := none }) behind
            (Nat.lt_succ_self _)
          refine ⟨?_, put⟩
          refine @Poised.composite _ _ _ _ _ handle { composite with current := none } offers
            weights starts floors behind ((size_put ..).symm ▸ bound) (cursor_put_self bound _)
            siblings light (fun _ shown => absurd shown.symm (Option.some_ne_none _))
            (fun _ shown => absurd shown.symm (Option.some_ne_none _))
            (fun _ shown => absurd shown.symm (Option.some_ne_none _)) ?_
          intro child member
          exact (poised child member).frame (Outside.of_put forest _ (Nat.le_refl _)
            (Nat.lt_succ_self _)) (.inl (siblings.inside child member).2)

/-- A cursor can be moved past any document that does not lie before its position. -/
theorem movePast_poised (poised : Poised law forest offered weight start handle floor)
    {doc : DocId} (above : floor ≤ doc.val + 1) :
    (movePast handle doc).Ends forest
      (fun _ after => Poised law after offered weight start handle (doc.val + 1) ∧
        Outside start (handle.index + 1) forest after)
      law.Fails := by
  unfold movePast
  cases ahead : doc.next? with
  | none =>
      obtain ⟨ended, outside⟩ := exhaustWithin_poised (Nat.lt_succ_self handle.index) poised
      rw [DocId.next?_eq_none.mp ahead]
      exact Step.ends_done rfl ⟨ended, outside⟩
  | some next =>
      have step := DocId.next?_eq_some.mp ahead
      rw [← step]
      exact moveTo_drives _ forest _ _ _ handle floor next (Nat.lt_succ_self _) poised (by omega)

end Forest

end Concordance
