import Concordance.Proofs.Cursor.Leaf
import Concordance.Proofs.Cursor.Seeking

/-!
# Cursors that track a meaning

A tree of cursors stands in a stretch of the forest that ends with its root.
It tracks a meaning when it shows the first match at or behind some position.
The children of a combination then track their parts of the meaning from the
document on which it stands; those of a combination that is done do not matter
any more.
-/

namespace Concordance

namespace Forest

/-! ## Places -/

theorem cursor_put_self {forest : Forest} {handle : Handle}
    (inside : handle.index < forest.cursors.size) (cursor : Cursor) :
    (forest.put handle cursor).cursor handle = cursor := by
  simp [put, Forest.cursor, Array.getD, inside]

theorem cursor_put_ne {forest : Forest} {handle other : Handle}
    (different : other.index ≠ handle.index) (cursor : Cursor) :
    (forest.put handle cursor).cursor other = forest.cursor other := by
  simp [put, Forest.cursor, different.symm]

theorem cursor_put_cases (forest : Forest) (handle : Handle) (cursor : Cursor) (other : Handle) :
    (forest.put handle cursor).cursor other = forest.cursor other ∨
      (forest.put handle cursor).cursor other = cursor := by
  by_cases same : other.index = handle.index
  · by_cases inside : handle.index < forest.cursors.size
    · cases other
      subst same
      exact .inr (cursor_put_self inside cursor)
    · refine .inl ?_
      simp [put, Array.setIfInBounds, inside]
  · exact .inl (cursor_put_ne same cursor)

theorem size_put (forest : Forest) (handle : Handle) (cursor : Cursor) :
    (forest.put handle cursor).cursors.size = forest.cursors.size := by
  simp [put]

/-- Forests that have the same cursors outside of a stretch. -/
structure Outside (start stop : Nat) (before after : Forest) : Prop where
  size : after.cursors.size = before.cursors.size
  same : ∀ handle : Handle, handle.index < start ∨ stop ≤ handle.index →
    after.cursor handle = before.cursor handle

namespace Outside

variable {start stop : Nat} {first second third : Forest}

theorem refl (start stop : Nat) (forest : Forest) : Outside start stop forest forest :=
  ⟨rfl, fun _ _ => rfl⟩

theorem trans (here : Outside start stop first second) (next : Outside start stop second third) :
    Outside start stop first third :=
  ⟨next.size.trans here.size,
    fun handle outside => (next.same handle outside).trans (here.same handle outside)⟩

theorem widen {lower upper : Nat} (here : Outside start stop first second)
    (before : lower ≤ start) (behind : stop ≤ upper) : Outside lower upper first second :=
  ⟨here.size, fun handle outside => here.same handle (by omega)⟩

theorem of_put {handle : Handle} (forest : Forest) (cursor : Cursor) (before : start ≤ handle.index)
    (behind : handle.index < stop) : Outside start stop forest (forest.put handle cursor) :=
  ⟨size_put forest handle cursor, fun other outside => cursor_put_ne (by omega) cursor⟩

end Outside

/-- A combination shows the match on which it stands. -/
theorem position_null {forest : Forest} {handle : Handle} {key : String}
    (here : forest.cursor handle = .null key) : forest.position handle = none := by
  rw [position, subject, here]
  rfl

theorem position_leaf {forest : Forest} {handle : Handle} {leaf : Leaf}
    (here : forest.cursor handle = .leaf leaf) :
    forest.position handle = leaf.reader.current := by
  rw [position, subject, here]
  rfl

theorem isDone_leaf {forest : Forest} {handle : Handle} {leaf : Leaf}
    (here : forest.cursor handle = .leaf leaf) :
    forest.isDone handle = leaf.reader.isDone := by
  rw [isDone, position_leaf here, Block.Reader.isDone]

theorem position_composite {forest : Forest} {handle : Handle} {composite : Composite}
    (here : forest.cursor handle = .composite composite) :
    forest.position handle = composite.current.map Match.doc := by
  rw [position, subject, here]
  rfl

theorem shows_leaf {forest : Forest} {handle : Handle} {leaf : Leaf}
    (here : forest.cursor handle = .leaf leaf) (running : leaf.reader.isDone = false) :
    forest.count handle = .ok leaf.reader.count ∧
      (leaf.capabilities.extents = true →
        forest.extents handle = .ok leaf.reader.extents) := by
  constructor
  · rw [Forest.count, here, Cursor.count, Leaf.count, running]
    rfl
  · intro offers
    rw [Leaf.capabilities_extents] at offers
    rw [Forest.extents, here, Cursor.extents, Leaf.extents, offers, running]
    rfl

theorem shows_composite {forest : Forest} {handle : Handle} {composite : Composite}
    (here : forest.cursor handle = .composite composite) :
    Shows composite.combination.capabilities composite.current handle forest := by
  refine ⟨?_, position_composite here, fun found same offers => ?_, fun found same offers => ?_⟩
  · rw [Forest.capabilities, here]
    rfl
  · rw [Forest.count, here]
    simp only [Cursor.count, Composite.count, same]
    exact if_pos offers
  · rw [Forest.extents, here]
    simp only [Cursor.extents, Composite.extents, same]
    exact if_pos offers

/-! ## Tracking -/

/-- A combination over children that offer what it needs.  Each stands in a stretch
of its own before `limit`, unless two of them are the same. -/
structure Family (combination : Combination) (children : List Handle)
    (meanings : Handle → Meaning) (starts : Handle → Nat) (start limit : Nat) : Prop where
  sound : ∀ child ∈ children, (meanings child).Sound
  offered : ∀ child ∈ children,
    (meanings child).capabilities.covers combination.needs = true
  countable : (combination.meaning (children.map meanings)).Countable
  inside : ∀ child ∈ children, start ≤ starts child ∧ child.index < limit
  apart : ∀ first ∈ children, ∀ second ∈ children,
    first = second ∨ first.index < starts second ∨ second.index < starts first

/-- Of two trees that stand apart, the second stays outside of the stretch of the first. -/
theorem outside_of_apart {first second : Handle} {starts : Handle → Nat}
    (apart : first = second ∨ first.index < starts second ∨ second.index < starts first)
    (different : second ≠ first) :
    second.index < starts first ∨ first.index + 1 ≤ starts second := by
  rcases apart with same | clear | clear
  · exact absurd same.symm different
  · exact .inr clear
  · exact .inl clear

theorem Family.meaning_sound {combination : Combination} {children : List Handle}
    {meanings : Handle → Meaning} {starts : Handle → Nat} {start limit : Nat}
    (family : Family combination children meanings starts start limit) :
    (combination.meaning (children.map meanings)).Sound :=
  Combination.meaning_sound (List.forall_mem_map.mpr family.sound)
    (List.forall_mem_map.mpr family.offered)

theorem Family.widen {combination : Combination} {children : List Handle}
    {meanings : Handle → Meaning} {starts : Handle → Nat} {start limit lower : Nat}
    (family : Family combination children meanings starts start limit) (below : lower ≤ start) :
    Family combination children meanings starts lower limit :=
  { family with
    inside := fun child member =>
      ⟨Nat.le_trans below (family.inside child member).1, (family.inside child member).2⟩ }

/-- The cursor at a handle, with those it is built over from `start` on, shows the
first match of a meaning at or behind a position. -/
inductive Tracks (forest : Forest) : Meaning → Nat → Handle → Nat → Prop where
  | null {start floor : Nat} {handle : Handle} {key : String} (behind : start ≤ handle.index)
      (bound : handle.index < forest.cursors.size) (here : forest.cursor handle = .null key) :
      Tracks forest .absent start handle floor
  | leaf {start floor interval : Nat} {handle : Handle} {leaf : Leaf} {postings : List Posting}
      {withExtents : Bool} (behind : start ≤ handle.index)
      (bound : handle.index < forest.cursors.size) (here : forest.cursor handle = .leaf leaf)
      (stands : leaf.At interval withExtents postings floor) :
      Tracks forest (.source postings withExtents) start handle floor
  | feature {start floor : Nat} {handle : Handle} {wrapper : Feature} {child : Meaning}
      (bound : handle.index < forest.cursors.size) (here : forest.cursor handle = .feature wrapper)
      (below : wrapper.child.index < handle.index) (counts : child.capabilities.count = true)
      (tracks : Tracks forest child start wrapper.child floor) :
      Tracks forest child.feature start handle floor
  | composite {start floor : Nat} {handle : Handle} {composite : Composite}
      {meanings : Handle → Meaning} {starts : Handle → Nat} (behind : start ≤ handle.index)
      (bound : handle.index < forest.cursors.size)
      (here : forest.cursor handle = .composite composite)
      (family : Family composite.combination composite.children meanings starts start handle.index)
      (first : First (composite.combination.meaning (composite.children.map meanings)).found floor
        composite.current)
      (tracks : ∀ found, composite.current = some found → ∀ child ∈ composite.children,
        Tracks forest (meanings child) (starts child) child found.doc.val) :
      Tracks forest (composite.combination.meaning (composite.children.map meanings)) start handle
        floor

namespace Tracks

variable {forest : Forest} {meaning : Meaning} {start floor : Nat} {handle : Handle}

theorem start_le (tracks : Tracks forest meaning start handle floor) : start ≤ handle.index := by
  induction tracks with
  | null behind => exact behind
  | leaf behind => exact behind
  | feature _ _ below _ _ induction => exact Nat.le_of_lt (Nat.lt_of_le_of_lt induction below)
  | composite behind => exact behind

theorem bound (tracks : Tracks forest meaning start handle floor) :
    handle.index < forest.cursors.size := by
  cases tracks <;> assumption

theorem sound (tracks : Tracks forest meaning start handle floor) : meaning.Sound := by
  induction tracks with
  | null => exact Meaning.absent_sound
  | leaf _ _ _ stands => exact Meaning.source_sound stands.stored.encodable.wellFormed _
  | feature _ _ _ _ _ induction => exact Meaning.feature_sound induction
  | composite _ _ _ family => exact family.meaning_sound

/-- A cursor that offers counts stands for itself. -/
theorem subject_eq (tracks : Tracks forest meaning start handle floor)
    (counts : meaning.capabilities.count = true) : forest.subject handle = forest.cursor handle := by
  unfold subject
  cases tracks with
  | null _ _ here => rw [here]
  | leaf _ _ here => rw [here]
  | feature => cases counts
  | composite _ _ here => rw [here]

theorem position_feature {wrapper : Feature} (here : forest.cursor handle = .feature wrapper)
    {child : Meaning} (tracks : Tracks forest child start wrapper.child floor)
    (counts : child.capabilities.count = true) :
    forest.position handle = forest.position wrapper.child := by
  have subject : forest.subject handle = forest.cursor wrapper.child := by
    rw [Forest.subject, here]
  rw [position, position, subject, tracks.subject_eq counts]

theorem shows (tracks : Tracks forest meaning start handle floor) :
    ∃ current, First meaning.found floor current ∧
      Shows meaning.capabilities current handle forest := by
  induction tracks with
  | null _ _ here =>
      refine ⟨none, .nowhere fun _ _ => rfl, ?_, position_null here,
        fun _ impossible => (nomatch impossible), fun _ impossible => (nomatch impossible)⟩
      rw [Forest.capabilities, here]
      rfl
  | leaf _ _ here stands =>
      obtain ⟨current, first, place, count, extents⟩ := stands.shows
      refine ⟨current, first, ?_, ?_, ?_, ?_⟩
      · rw [Forest.capabilities, here]
        simp only [Cursor.capabilities, Leaf.capabilities, stands.first.mode]
        rfl
      · rw [position_leaf here]
        exact place
      · intro found same _
        rw [Forest.count, here]
        exact count found same
      · intro found same offers
        rw [Forest.extents, here]
        apply extents found same
        rename_i withExtents _ _
        cases withExtents with
        | false => cases offers
        | true => rfl
  | feature bound here below counts tracks induction =>
      obtain ⟨current, first, shows⟩ := induction
      refine ⟨current, first, ?_, ?_, fun _ _ impossible => (nomatch impossible),
        fun _ _ impossible => (nomatch impossible)⟩
      · rw [Forest.capabilities, here]
        rfl
      · rw [position_feature here tracks counts]
        exact shows.position
  | composite _ _ here _ first => exact ⟨_, first, shows_composite here⟩

/-- A cursor tracks on behind any position that it does not stand below. -/
theorem raise (tracks : Tracks forest meaning start handle floor) {higher : Nat}
    (above : floor ≤ higher) (reached : ∀ doc, forest.position handle = some doc → higher ≤ doc.val) :
    Tracks forest meaning start handle higher := by
  induction tracks with
  | null behind bound here => exact .null behind bound here
  | leaf behind bound here stands =>
      refine .leaf behind bound here (stands.raise above fun doc shown => reached doc ?_)
      rw [position_leaf here]
      exact shown
  | feature bound here below counts tracks induction =>
      refine .feature bound here below counts (induction above fun doc shown => reached doc ?_)
      rw [position_feature here tracks counts]
      exact shown
  | composite behind bound here family first tracks =>
      refine .composite behind bound here family
        (first.raise above fun doc shown => reached doc ?_) tracks
      rw [position_composite here]
      exact shown

/-- Cursors outside of the tree do not matter. -/
theorem congr {other : Forest} (tracks : Tracks forest meaning start handle floor)
    (size : forest.cursors.size ≤ other.cursors.size)
    (same : ∀ place : Handle, start ≤ place.index → place.index ≤ handle.index →
      other.cursor place = forest.cursor place) :
    Tracks other meaning start handle floor := by
  induction tracks with
  | null behind bound here =>
      exact .null behind (Nat.lt_of_lt_of_le bound size) ((same _ behind (Nat.le_refl _)).trans here)
  | leaf behind bound here stands =>
      exact .leaf behind (Nat.lt_of_lt_of_le bound size) ((same _ behind (Nat.le_refl _)).trans here) stands
  | feature bound here below counts tracks induction =>
      refine .feature (Nat.lt_of_lt_of_le bound size) ((same _ ?_ (Nat.le_refl _)).trans here) below counts
        (induction fun place behind before => same place behind (by omega))
      have behind := tracks.start_le
      omega
  | composite behind bound here family first tracks induction =>
      refine .composite behind (Nat.lt_of_lt_of_le bound size) ((same _ behind (Nat.le_refl _)).trans here) family
        first ?_
      intro found shown child member
      obtain ⟨within, before⟩ := family.inside child member
      exact induction found shown child member
        fun place behind upTo => same place (by omega) (by omega)

theorem widen {lower : Nat} (tracks : Tracks forest meaning start handle floor)
    (below : lower ≤ start) : Tracks forest meaning lower handle floor := by
  induction tracks with
  | null behind bound here => exact .null (Nat.le_trans below behind) bound here
  | leaf behind bound here stands => exact .leaf (Nat.le_trans below behind) bound here stands
  | feature bound here under counts tracks induction =>
      exact .feature bound here under counts (induction below)
  | composite behind bound here family first tracks =>
      exact .composite (Nat.le_trans below behind) bound here (family.widen below) first tracks

/-- Changes in a stretch that the tree does not reach into. -/
theorem frame {lower upper : Nat} {other : Forest}
    (tracks : Tracks forest meaning start handle floor) (outside : Outside lower upper forest other)
    (apart : handle.index < lower ∨ upper ≤ start) : Tracks other meaning start handle floor :=
  tracks.congr (Nat.le_of_eq outside.size.symm) fun place behind before => outside.same place (by omega)

end Tracks

end Forest

end Concordance
