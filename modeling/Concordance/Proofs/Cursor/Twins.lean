import Concordance.Proofs.Cursor.Abreast

/-!
# Cursors with one tree

Cursors that have one tree stay alike wherever they stand, however many places the cursors
of the tree take, and whatever they are asked for.
-/

namespace Concordance

namespace Forest

variable {law : Leaf.Law}

/-! ## Moving two trees -/

section Trees

variable {forest other after : Forest} {handle rival : Handle}

theorem cursor_null_alike {key : String} (same : forest.unfold handle = other.unfold rival)
    (here : forest.cursor handle = .null key) : other.cursor rival = .null key := by
  have root := bare_alike same
  rw [here] at root
  cases there : other.cursor rival <;> rw [there] at root <;> cases root
  rfl

theorem cursor_leaf_alike {leaf : Leaf} (same : forest.unfold handle = other.unfold rival)
    (here : forest.cursor handle = .leaf leaf) : other.cursor rival = .leaf leaf := by
  have root := bare_alike same
  rw [here] at root
  cases there : other.cursor rival <;> rw [there] at root <;> cases root
  rfl

theorem cursor_feature_alike {wrapper : Feature} (same : forest.unfold handle = other.unfold rival)
    (here : forest.cursor handle = .feature wrapper) :
    ∃ twin, other.cursor rival = .feature twin := by
  have root := bare_alike same
  rw [here] at root
  cases there : other.cursor rival with
  | feature twin => exact ⟨twin, rfl⟩
  | null | leaf | composite => rw [there] at root; cases root

theorem cursor_composite_alike {parent : Composite}
    (same : forest.unfold handle = other.unfold rival)
    (here : forest.cursor handle = .composite parent) :
    ∃ twin, other.cursor rival = .composite twin := by
  have root := bare_alike same
  rw [here] at root
  cases there : other.cursor rival with
  | composite twin => exact ⟨twin, rfl⟩
  | null | leaf | feature => rw [there] at root; cases root

/-- The tree of a combination that was put over children in their places. -/
theorem unfold_put_composite {brood : Brood} {parent : Composite}
    (standing : ∀ child ∈ parent.children, ∃ floor, brood.Stands law child floor after)
    (below : ∀ child ∈ parent.children, child.index < handle.index)
    (bound : handle.index < after.cursors.size) :
    (after.put handle (.composite parent)).unfold handle =
      .composite parent.key parent.combination parent.current
        (parent.children.map after.unfold) := by
  choose! floors poised using standing
  have put := Outside.of_put after (.composite parent) (Nat.le_refl handle.index)
    (Nat.lt_succ_self _)
  rw [unfold_composite (cursor_put_self bound _) below fun child member =>
    Poised.frame (poised child member) put (.inl (below child member))]
  congr 1
  apply List.map_congr_left
  intro child member
  exact Poised.unfold_frame (poised child member) put (.inl (below child member))

/-- However far a cursor is asked to move, it can be moved on later. -/
theorem moveWithin_keeps (rests : law.Rests) (sure : ∀ cause, ¬law.Fails cause) {depth : Nat}
    {offered : Capabilities} {weight start floor : Nat} (within : handle.index < depth)
    (poised : Poised law forest offered weight start handle floor) (target : DocId) :
    ∃ higher,
      Poised law (Step.endState (moveWithin depth handle target) forest) offered weight start handle
        higher ∧
      Outside start (handle.index + 1) forest
        (Step.endState (moveWithin depth handle target) forest) := by
  by_cases below : target.val < floor
  · obtain ⟨last, run | ⟨cause, run, _⟩, stays, outside, _⟩ :=
      moveWithin_rests rests within poised below
    · exact (Step.endState_ok run).symm ▸ ⟨floor, stays, outside⟩
    · exact (Step.endState_error run).symm ▸ ⟨floor, stays, outside⟩
  · have ends := moveWithin_drives depth forest _ _ _ handle floor target within poised
      (Nat.not_lt.mp below)
    obtain ⟨_, last, run, there, outside⟩ := ends.exists_ok sure
    exact (Step.endState_ok run).symm ▸ ⟨_, there, outside⟩

end Trees

/-- Two cursors over cursors with one tree do the same when they leave a move to these. -/
theorem moveWithin_feature_alike (rests : law.Rests) (sure : ∀ cause, ¬law.Fails cause)
    {depth deep : Nat} (alike : MovesAlike law (moveWithin depth) (moveWithin deep) depth deep)
    {forest other : Forest} {offered offers : Capabilities} {weight bulk start begin : Nat}
    {handle rival : Handle} {floor lower : Nat} {wrapper twin : Feature}
    (within : handle.index < depth + 1) (withinRival : rival.index < deep + 1)
    (here : forest.cursor handle = .feature wrapper) (there : other.cursor rival = .feature twin)
    (below : wrapper.child.index < handle.index) (belowTwin : twin.child.index < rival.index)
    (poised : Poised law forest offered weight start wrapper.child floor)
    (poisedTwin : Poised law other offers bulk begin twin.child lower)
    (same : forest.unfold handle = other.unfold rival) (target : DocId) :
    (moveWithin (depth + 1) handle target).Echoes (moveWithin (deep + 1) rival target) forest other
      fun after later => after.unfold handle = later.unfold rival := by
  rw [unfold_feature here below poised, unfold_feature there belowTwin poisedTwin] at same
  injection same with key scorer child
  have inner := alike forest other _ _ _ _ _ _ _ _ _ _ target (by omega) (by omega) poised
    poisedTwin child
  refine (inner.imp fun known => ?_).congr (moveWithin_feature target here)
    (moveWithin_feature target there)
  have into : wrapper.child.index < depth := by omega
  have intoTwin : twin.child.index < deep := by omega
  obtain ⟨_, stays, outside⟩ := moveWithin_keeps rests sure into poised target
  obtain ⟨_, staysTwin, outsideTwin⟩ := moveWithin_keeps rests sure intoTwin poisedTwin target
  have stands := (outside.same handle (.inr (by omega))).trans here
  have standsTwin := (outsideTwin.same rival (.inr (by omega))).trans there
  rw [unfold_feature stands below stays, unfold_feature standsTwin belowTwin staysTwin, known, key,
    scorer]

/-- A combination over children that can be moved from where it stands. -/
structure Heads (law : Leaf.Law) (start : Nat) (handle : Handle) (parent : Composite)
    (brood : Brood) (forest : Forest) : Prop where
  here : forest.cursor handle = .composite parent
  bound : handle.index < forest.cursors.size
  owns : brood.children = parent.children
  siblings : Siblings parent.combination brood.children brood.offers brood.starts start
    handle.index
  low : ∀ found, parent.current = some found →
    Ready brood.children (brood.Stands law) found.doc.val forest
  standing : ∀ child ∈ brood.children, ∃ floor, brood.Stands law child floor forest
  unfolds : forest.unfold handle = .composite parent.key parent.combination parent.current
    (brood.children.map forest.unfold)

theorem Poised.heads {forest : Forest} {offered : Capabilities} {weight start floor : Nat}
    {handle : Handle} {parent : Composite}
    (poised : Poised law forest offered weight start handle floor)
    (here : forest.cursor handle = .composite parent) :
    ∃ brood, Heads law start handle parent brood forest := by
  cases poised with
  | composite behind bound found siblings light reached whole low poised =>
      cases here.symm.trans found
      rename_i offers weights starts floors
      have unfolds := unfold_composite here (fun child member => (siblings.inside child member).2)
        poised
      exact ⟨⟨parent.children, offers, weights, starts⟩, here, bound, rfl, siblings,
        fun found shown child member =>
          ⟨floors child, low found shown child member, poised child member⟩,
        fun child member => ⟨floors child, poised child member⟩, unfolds⟩
  | null _ _ found => cases here.symm.trans found
  | leaf _ _ found => cases here.symm.trans found
  | feature _ found => cases here.symm.trans found

/-- A cursor over a single one stands on the cursor behind which it is built. -/
theorem Poised.wraps {forest : Forest} {offered : Capabilities} {weight start floor : Nat}
    {handle : Handle} {wrapper : Feature}
    (poised : Poised law forest offered weight start handle floor)
    (here : forest.cursor handle = .feature wrapper) :
    wrapper.child.index < handle.index ∧
      ∃ offers bulk, Poised law forest offers bulk start wrapper.child floor := by
  cases poised with
  | feature _ found below _ poised =>
      cases here.symm.trans found
      exact ⟨below, _, _, poised⟩
  | null _ _ found => cases here.symm.trans found
  | leaf _ _ found => cases here.symm.trans found
  | composite _ _ found => cases here.symm.trans found

theorem Siblings.higher {combination : Combination} {children : List Handle}
    {offers : Handle → Capabilities} {starts : Handle → Nat} {start limit upper : Nat}
    (siblings : Siblings combination children offers starts start limit) (above : limit ≤ upper) :
    Siblings combination children offers starts start upper :=
  { siblings with
    inside := fun child member =>
      ⟨(siblings.inside child member).1,
        Nat.lt_of_lt_of_le (siblings.inside child member).2 above⟩ }

/-- A combination that seeks is put over its children where they end. -/
theorem Heads.put {start : Nat} {handle : Handle} {parent : Composite} {brood : Brood}
    {forest after : Forest} (heads : Heads law start handle parent brood forest)
    (size : after.cursors.size = forest.cursors.size)
    (standing : ∀ child ∈ brood.children, ∃ floor, brood.Stands law child floor after)
    (next : Option Match) :
    (after.put handle (.composite { parent with current := next })).unfold handle =
      .composite parent.key parent.combination next (brood.children.map after.unfold) := by
  have below : ∀ child ∈ parent.children, child.index < handle.index := by
    rw [← heads.owns]
    exact fun child member => (heads.siblings.inside child member).2
  rw [heads.owns] at standing ⊢
  exact @unfold_put_composite law after handle brood { parent with current := next } standing below
    (size ▸ heads.bound)

/-- Two combinations with one tree do the same when they are moved. -/
theorem moveWithin_composite_alike {depth deep : Nat}
    (reliable : Reliable law (moveWithin depth) depth)
    (reliableRival : Reliable law (moveWithin deep) deep)
    (across : MovesAlike law (moveWithin depth) (moveWithin deep) depth deep)
    {forest other : Forest} {start begin : Nat} {handle rival : Handle} {brood rivals : Brood}
    {parent twin : Composite} (within : handle.index < depth + 1)
    (withinRival : rival.index < deep + 1) (heads : Heads law start handle parent brood forest)
    (headsTwin : Heads law begin rival twin rivals other)
    (same : forest.unfold handle = other.unfold rival) (target : DocId) :
    (moveWithin (depth + 1) handle target).Echoes (moveWithin (deep + 1) rival target) forest other
      fun after later => after.unfold handle = later.unfold rival := by
  have trees := same
  rw [heads.unfolds, headsTwin.unfolds] at trees
  injection trees with key combination current children
  rcases below_or_stays parent.current target with ⟨found, shown, below⟩ | stays
  · have shownTwin := current.symm.trans shown
    have siblings := heads.siblings.higher (Nat.le_of_lt_succ within)
    have siblingsTwin := headsTwin.siblings.higher (Nat.le_of_lt_succ withinRival)
    rw [← combination] at siblingsTwin
    have abreast : Abreast law brood rivals target.val forest other :=
      ⟨(heads.low found shown).later (Nat.le_of_lt below),
        (headsTwin.low found shownTwin).later (Nat.le_of_lt below), children⟩
    obtain ⟨next, after, later, sought, soughtTwin, stands⟩ :=
      seek_both reliable siblings reliableRival siblingsTwin across abreast
    obtain ⟨outside, _⟩ := (seek_poised reliable.drives siblings abreast.here).of_ok sought
    obtain ⟨outsideTwin, _⟩ :=
      (seek_poised reliableRival.drives siblingsTwin abreast.there).of_ok soughtTwin
    have run := @moveWithin_seeks depth _ _ _ _ _ heads.here shown below
    have ran := @moveWithin_seeks deep _ _ _ _ _ headsTwin.here shownTwin below
    rw [heads.owns] at sought
    rw [headsTwin.owns, combination] at soughtTwin
    rw [sought] at run
    rw [soughtTwin] at ran
    refine Step.echoes_ok run ran ?_
    rw [heads.put outside.size stands.here.standing, headsTwin.put outsideTwin.size
      stands.there.standing, key, combination, stands.same]
  · exact Step.echoes_ok (moveWithin_run heads.here stays)
      (moveWithin_run headsTwin.here (current ▸ stays)) same

/-- Cursors with one tree do the same when they are moved. -/
theorem moveWithin_alike (rests : law.Rests) (sure : ∀ cause, ¬law.Fails cause) (bound : Nat) :
    ∀ depth deep, depth ≤ bound → deep ≤ bound →
      MovesAlike law (moveWithin depth) (moveWithin deep) depth deep := by
  induction bound with
  | zero =>
      intro depth deep shallow _ forest other _ _ _ _ _ _ handle _ _ _ _ within
      exact absurd within (by omega)
  | succ bound induction =>
      intro depth deep shallow shallowRival forest other offered offers weight bulk start begin
        handle rival floor lower target within withinRival poised poisedRival same
      obtain ⟨depth, rfl⟩ := Nat.exists_eq_add_one_of_ne_zero (Nat.ne_zero_of_lt within)
      obtain ⟨deep, rfl⟩ := Nat.exists_eq_add_one_of_ne_zero (Nat.ne_zero_of_lt withinRival)
      have tree := poised
      have rivalBound := poisedRival.bound
      have alike := induction depth deep (by omega) (by omega)
      cases poised with
      | null behind bound here =>
          have there := cursor_null_alike same here
          exact Step.echoes_ok (moveWithin_null target here) (moveWithin_null target there) same
      | leaf behind bound here stands light =>
          rename_i leaf
          have there := cursor_leaf_alike same here
          have put : ∀ last : Leaf, (forest.put handle (.leaf last)).unfold handle =
              (other.put rival (.leaf last)).unfold rival := by
            intro last
            rw [unfold_leaf (cursor_put_self bound _), unfold_leaf (cursor_put_self rivalBound _)]
          have run := @moveWithin_leaf depth _ _ target _ here
          have ran := @moveWithin_leaf deep _ _ target _ there
          cases moved : Leaf.moveTo target leaf with
          | ok value last =>
              rw [moved] at run ran
              exact Step.echoes_ok run ran (put last)
          | error cause last =>
              rw [moved] at run ran
              exact Step.echoes_error run ran (put last)
      | feature bound here below counts poised =>
          obtain ⟨twin, there⟩ := cursor_feature_alike same here
          obtain ⟨belowTwin, _, _, poisedTwin⟩ := poisedRival.wraps there
          exact moveWithin_feature_alike rests sure alike within withinRival here there below
            belowTwin poised poisedTwin same target
      | composite behind bound here siblings light reached whole low poised =>
          obtain ⟨twin, there⟩ := cursor_composite_alike same here
          obtain ⟨brood, heads⟩ := tree.heads here
          obtain ⟨rivals, headsTwin⟩ := poisedRival.heads there
          have reliable : Reliable law (moveWithin depth) depth :=
            ⟨sure, moveWithin_drives depth, moveWithin_steady depth,
              induction depth depth (by omega) (by omega)⟩
          have reliableRival : Reliable law (moveWithin deep) deep :=
            ⟨sure, moveWithin_drives deep, moveWithin_steady deep,
              induction deep deep (by omega) (by omega)⟩
          exact moveWithin_composite_alike reliable reliableRival alike within withinRival heads
            headsTwin same target

theorem moveTo_alike (rests : law.Rests) (sure : ∀ cause, ¬law.Fails cause)
    (limit rivalLimit : Nat) : MovesAlike law moveTo moveTo limit rivalLimit :=
  fun forest other offered offers weight bulk start begin handle rival floor lower target _ _ =>
    moveWithin_alike rests sure (max (handle.index + 1) (rival.index + 1)) _ _ (Nat.le_max_left ..)
      (Nat.le_max_right ..) forest other offered offers weight bulk start begin handle rival floor
      lower target (Nat.lt_succ_self _) (Nat.lt_succ_self _)

/-- Moving is reliable where no leaf fails. -/
theorem moveTo_reliable (rests : law.Rests) (sure : ∀ cause, ¬law.Fails cause) (limit : Nat) :
    Reliable law moveTo limit where
  sure := sure
  drives := moveTo_drives limit
  steady forest after offered weight start handle floor target _ :=
    moveWithin_steady _ forest after offered weight start handle floor target (Nat.lt_succ_self _)
  alike := moveTo_alike rests sure limit limit

/-- Cursors with one tree are ended alike. -/
theorem exhaustWithin_alike {depth deep : Nat} {forest other : Forest}
    {offered offers : Capabilities} {weight bulk start begin : Nat} {handle rival : Handle}
    {floor lower : Nat} (within : handle.index < depth) (withinRival : rival.index < deep)
    (poised : Poised law forest offered weight start handle floor)
    (poisedRival : Poised law other offers bulk begin rival lower)
    (same : forest.unfold handle = other.unfold rival) :
    (exhaustWithin depth handle forest).unfold handle =
      (exhaustWithin deep rival other).unfold rival := by
  induction depth generalizing deep offered offers weight bulk start begin handle rival floor
    lower with
  | zero => exact absurd within (Nat.not_lt_zero _)
  | succ depth induction =>
      obtain ⟨deep, rfl⟩ := Nat.exists_eq_add_one_of_ne_zero (Nat.ne_zero_of_lt withinRival)
      have tree := poised
      rw [exhaustWithin, exhaustWithin]
      cases poised with
      | null behind bound here =>
          rw [here, cursor_null_alike same here]
          exact same
      | leaf behind bound here stands light =>
          rw [here, cursor_leaf_alike same here]
          dsimp only
          rw [unfold_leaf (cursor_put_self bound _),
            unfold_leaf (cursor_put_self poisedRival.bound _)]
      | feature bound here below counts poised =>
          rename_i wrapper _
          obtain ⟨twin, there⟩ := cursor_feature_alike same here
          rw [here, there]
          dsimp only
          obtain ⟨belowTwin, _, _, poisedTwin⟩ := poisedRival.wraps there
          rw [unfold_feature here below poised, unfold_feature there belowTwin poisedTwin] at same
          injection same with key scorer child
          have inner : (exhaustWithin depth wrapper.child forest).unfold wrapper.child =
              (exhaustWithin deep twin.child other).unfold twin.child :=
            induction (by omega) (by omega) poised poisedTwin child
          obtain ⟨stays, outside⟩ := exhaustWithin_poised (show _ < depth by omega) poised
          obtain ⟨staysTwin, outsideTwin⟩ :=
            exhaustWithin_poised (show _ < deep by omega) poisedTwin
          have stands := (outside.same _ (.inr (by omega))).trans here
          have standsTwin := (outsideTwin.same _ (.inr (by omega))).trans there
          rw [unfold_feature stands below stays, unfold_feature standsTwin belowTwin staysTwin,
            inner, key, scorer]
      | composite behind bound here siblings light reached whole low poised =>
          obtain ⟨twin, there⟩ := cursor_composite_alike same here
          obtain ⟨brood, heads⟩ := tree.heads here
          obtain ⟨rivals, headsTwin⟩ := poisedRival.heads there
          rw [heads.unfolds, headsTwin.unfolds] at same
          injection same with key combination _ children
          rw [here, there]
          dsimp only
          rw [heads.put rfl heads.standing, headsTwin.put rfl headsTwin.standing, key, combination,
            children]

/-! ## Calling two trees -/

section Calls

variable {forest other : Forest} {offered offers : Capabilities} {weight bulk start begin : Nat}
  {handle rival : Handle}

/-- Cursors with one tree answer alike, also where they refuse. -/
theorem Call.run_alike (rests : law.Rests) (sure : ∀ cause, ¬law.Fails cause) {floor lower : Nat}
    (poised : Poised law forest offered weight start handle floor)
    (poisedRival : Poised law other offers bulk begin rival lower)
    (same : forest.unfold handle = other.unfold rival) (call : Call) :
    (call.run handle).Echoes (call.run rival) forest other
      fun after later => after.unfold handle = later.unfold rival := by
  have ended : (modify (·.exhaust handle) : Step Forest Unit).Echoes (modify (·.exhaust rival))
      forest other fun after later => after.unfold handle = later.unfold rival :=
    Step.echoes_ok rfl rfl (exhaustWithin_alike (Nat.lt_succ_self _) (Nat.lt_succ_self _) poised
      poisedRival same)
  have moved : ∀ target, (moveTo handle target).Echoes (moveTo rival target) forest other
      fun after later => after.unfold handle = later.unfold rival := fun target =>
    moveTo_alike rests sure _ _ forest other _ _ _ _ _ _ _ _ _ _ target (Nat.lt_succ_self _)
      (Nat.lt_succ_self _) poised poisedRival same
  have passed : ∀ doc, (movePast handle doc).Echoes (movePast rival doc) forest other
      fun after later => after.unfold handle = later.unfold rival := by
    intro doc
    unfold movePast
    cases doc.next? with
    | none => exact ended
    | some next => exact moved next
  match call with
  | .exhaust => exact ended
  | .move (.moveTo target) => exact moved target
  | .move (.movePast doc) => exact passed doc

/-- What calls on a cursor answer, and what the cursor shows behind each of them.  Calls go on
behind one that fails. -/
def Call.trace (handle : Handle) : List Call → Forest → List (Except Error Unit × Face)
  | [], _ => []
  | call :: calls, forest =>
    let after := Step.endState (call.run handle) forest
    ((call.run handle).evaluate forest, after.face handle) :: trace handle calls after

/-- Cursors with one tree cannot be told apart by calls. -/
theorem Call.trace_alike (rests : law.Rests) (sure : ∀ cause, ¬law.Fails cause)
    (poised : Poised law forest offered weight start handle (forest.front handle))
    (poisedRival : Poised law other offers bulk begin rival (other.front rival))
    (same : forest.unfold handle = other.unfold rival) (calls : List Call) :
    trace handle calls forest = trace rival calls other := by
  induction calls generalizing forest other with
  | nil => rfl
  | cons call calls induction =>
      have echoes := call.run_alike rests sure poised poisedRival same
      have onward := call.run_onward rests poised fun cause _ _ => sure cause
      have onwardRival := call.run_onward rests poisedRival fun cause _ _ => sure cause
      rw [trace, trace]
      rw [echoes.evaluate_eq, face_alike onward.poised onwardRival.poised echoes.endState,
        induction onward.poised onwardRival.poised echoes.endState]

end Calls

end Forest

end Concordance
