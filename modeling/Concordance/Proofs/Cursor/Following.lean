import Concordance.Proofs.Cursor.Tracks

/-!
# Following a meaning

Whoever drives a cursor knows it by a contract, as a combination knows its children: it shows
the first match of some meaning at or behind the position that it was moved to, and a change
of it stays in the stretch of the forest that ends with it.
-/

namespace Concordance

namespace Forest

/-- A cursor that is moved to a document matches it with a count. -/
def Finds (forest : Forest) (handle : Handle) (doc : DocId) (count : Nat) : Prop :=
  ∃ after, moveTo handle doc forest = .ok () after ∧ after.hasMatch handle doc = true ∧
    after.count handle = .ok count

/-- A cursor and those that it is built over from `start` on follow a meaning.  `stands` says
that they show its first match at or behind a position. -/
structure Follows (meaning : Meaning) (start : Nat) (handle : Handle)
    (stands : Nat → Forest → Prop) : Prop where
  shows : ∀ {floor : Nat} {forest : Forest}, stands floor forest →
    ∃ current, First meaning.found floor current ∧
      Shows meaning.capabilities current handle forest
  raise : ∀ {floor higher : Nat} {forest : Forest}, stands floor forest → floor ≤ higher →
    (∀ doc, forest.position handle = some doc → higher ≤ doc.val) → stands higher forest
  frame : ∀ {floor lower upper : Nat} {forest other : Forest}, stands floor forest →
    Outside lower upper forest other → handle.index < lower ∨ upper ≤ start → stands floor other
  moves : ∀ {floor depth : Nat} {forest : Forest} {target : DocId}, handle.index < depth →
    stands floor forest → floor ≤ target.val →
    ∃ after, moveWithin depth handle target forest = .ok () after ∧ stands target.val after ∧
      Outside start (handle.index + 1) forest after
  exhausts : ∀ {floor depth : Nat} {forest : Forest}, handle.index < depth →
    stands floor forest →
    stands 18446744073709551616 (exhaustWithin depth handle forest) ∧
      Outside start (handle.index + 1) forest (exhaustWithin depth handle forest)

namespace Follows

variable {meaning : Meaning} {start floor : Nat} {handle : Handle} {stands : Nat → Forest → Prop}
  {forest : Forest}

theorem moveTo (follows : Follows meaning start handle stands) (standing : stands floor forest)
    {target : DocId} (above : floor ≤ target.val) :
    ∃ after, Forest.moveTo handle target forest = .ok () after ∧ stands target.val after ∧
      Outside start (handle.index + 1) forest after :=
  follows.moves (Nat.lt_succ_self _) standing above

theorem movePast (follows : Follows meaning start handle stands) (standing : stands floor forest)
    {doc : DocId} (above : floor ≤ doc.val + 1) :
    ∃ after, Forest.movePast handle doc forest = .ok () after ∧ stands (doc.val + 1) after ∧
      Outside start (handle.index + 1) forest after := by
  unfold Forest.movePast
  cases ahead : doc.next? with
  | none =>
      have top := DocId.next?_eq_none.mp ahead
      obtain ⟨ended, outside⟩ := follows.exhausts (Nat.lt_succ_self _) standing
      refine ⟨forest.exhaust handle, rfl, ?_, outside⟩
      rw [top]
      exact ended
  | some next =>
      have step := DocId.next?_eq_some.mp ahead
      obtain ⟨after, moved, there, outside⟩ :=
        follows.moveTo standing (by omega : floor ≤ next.val)
      exact ⟨after, moved, step ▸ there, outside⟩

/-! ## Single documents -/

theorem found_cases (follows : Follows meaning start handle stands) (standing : stands 0 forest)
    (doc : DocId) : ∃ after, Forest.moveTo handle doc forest = .ok () after ∧
      ((∃ here, meaning.found doc = some here ∧ here.doc = doc ∧
          Shows meaning.capabilities (some here) handle after) ∨
        meaning.found doc = none ∧ after.hasMatch handle doc = false) := by
  obtain ⟨after, moved, there, _⟩ := follows.moveTo standing (Nat.zero_le doc.val)
  obtain ⟨current, first, shows⟩ := follows.shows there
  refine ⟨after, moved, ?_⟩
  rcases first.found_cases with ⟨here, rfl, place, known⟩ | ⟨_, absent⟩
  · exact .inl ⟨here, known, place, shows⟩
  · refine .inr ⟨absent, ?_⟩
    rw [shows.hasMatch_eq first, absent]
    rfl

/-- What is found in a document is a match of that document. -/
theorem place (follows : Follows meaning start handle stands) (standing : stands 0 forest)
    (doc : DocId) (found : Match) (known : meaning.found doc = some found) : found.doc = doc := by
  obtain ⟨_, _, ⟨here, same, place, _⟩ | ⟨absent, _⟩⟩ := follows.found_cases standing doc
  · rw [known] at same
    cases same
    exact place
  · rw [known] at absent
    cases absent

/-- A cursor finds in a document what it follows. -/
theorem finds_iff (follows : Follows meaning start handle stands) (standing : stands 0 forest)
    (counts : meaning.capabilities.count = true) {doc : DocId} {count : Nat} :
    forest.Finds handle doc count ↔
      ∃ here, meaning.found doc = some here ∧ here.count = count := by
  obtain ⟨after, moved, ⟨here, known, place, shows⟩ | ⟨absent, elsewhere⟩⟩ :=
    follows.found_cases standing doc
  · have match? : after.hasMatch handle doc = true := by
      rw [hasMatch, shows.position, Option.map_some, place]
      exact beq_self_eq_true _
    have counted := shows.count here rfl counts
    constructor
    · rintro ⟨other, run, _, same⟩
      rw [moved] at run
      cases run
      rw [counted] at same
      exact ⟨here, known, Except.ok.inj same⟩
    · rintro ⟨other, same, rfl⟩
      rw [known] at same
      cases same
      exact ⟨after, moved, match?, counted⟩
  · constructor
    · rintro ⟨other, run, stands, _⟩
      rw [moved] at run
      cases run
      rw [elsewhere] at stands
      cases stands
    · rintro ⟨other, same, _⟩
      rw [absent] at same
      cases same

end Follows

/-! ## Children -/

/-- Cursors that follow their meanings, each in a stretch of its own, can be moved by their
parent. -/
theorem guided_of_follows {move : Move} {children : List Handle} {meanings : Handle → Meaning}
    {starts : Handle → Nat} {stands : Handle → Nat → Forest → Prop} {start limit : Nat}
    (follows : ∀ child ∈ children,
      Follows (meanings child) (starts child) child (stands child))
    (deep : ∀ child ∈ children, ∃ depth, child.index < depth ∧ move child = moveWithin depth child)
    (inside : ∀ child ∈ children, start ≤ starts child ∧ child.index < limit)
    (apart : ∀ first ∈ children, ∀ second ∈ children,
      first = second ∨ first.index < starts second ∨ second.index < starts first) :
    Guided move children meanings stands (Outside start limit) where
  shows child member _ _ := (follows child member).shows
  raise child member _ _ _ := (follows child member).raise
  moves child member floor target forest standing above := by
    obtain ⟨depth, within, same⟩ := deep child member
    obtain ⟨behind, before⟩ := inside child member
    obtain ⟨after, moved, there, outside⟩ := (follows child member).moves within standing above
    refine ⟨after, by rw [same, moved], there, outside.widen behind before, ?_⟩
    intro other isChild different floor standing
    exact (follows other isChild).frame standing outside
      (outside_of_apart (apart child member other isChild) different)
  refl := Outside.refl start limit
  trans _ _ _ first second := first.trans second

end Forest

end Concordance
