import Concordance.Proofs.Block.Foreign
import Concordance.Proofs.Cursor.Leaf

/-!
# What is relied on in leaves

A combination needs little of the leaves below it: that one that was moved to a
target stands at or behind it or is done, that what it shows is a whole posting,
and that a move fails for a known cause only.  Leaves over blocks of any bytes
keep this law, with corruption as the cause.  Leaves over the blocks that a
writer made keep it too, and they never fail.
-/

namespace Concordance

namespace Leaf

/-- A bound on the extents that a leaf can show in one document: the bytes of all
of them. -/
def weight (leaf : Leaf) : Nat := leaf.reader.layout.extents.length

/-- The law that leaves keep as they are moved on. -/
structure Law where
  /-- A leaf that can be moved to any position from this one on. -/
  Stands : Nat → Leaf → Prop
  /-- The causes for which a leaf may fail. -/
  Fails : Error → Prop
  reached : ∀ {floor : Nat} {leaf : Leaf} {doc : DocId}, Stands floor leaf →
    leaf.reader.current = some doc → floor ≤ doc.val
  raise : ∀ {floor higher : Nat} {leaf : Leaf}, Stands floor leaf → floor ≤ higher →
    (∀ doc, leaf.reader.current = some doc → higher ≤ doc.val) → Stands higher leaf
  moves : ∀ {floor : Nat} {leaf : Leaf} {target : DocId}, Stands floor leaf →
    floor ≤ target.val →
    (moveTo target).Ends leaf
      (fun _ after => Stands target.val after ∧ after.weight = leaf.weight ∧
        after.capabilities = leaf.capabilities) Fails
  exhausts : ∀ {floor : Nat} {leaf : Leaf}, Stands floor leaf →
    Stands 18446744073709551616 leaf.exhaust
  occurs : ∀ {floor : Nat} {leaf : Leaf}, Stands floor leaf → leaf.reader.isDone = false →
    0 < leaf.reader.count
  shown : ∀ {floor : Nat} {leaf : Leaf}, Stands floor leaf → leaf.reader.isDone = false →
    leaf.reader.withExtents = true → leaf.reader.extents ≠ [] ∧
      Extent.WellOrdered leaf.reader.extents ∧ leaf.reader.extents.length ≤ leaf.weight

/-! ## Blocks of any bytes -/

/-- A leaf over a parsed block, at or behind a position from which on it can be
moved. -/
structure Sound (floor : Nat) (leaf : Leaf) : Prop where
  coherent : leaf.reader.Coherent
  reached : ∀ doc, leaf.reader.current = some doc → floor ≤ doc.val
  low : leaf.reader.current ≠ none → leaf.floor.val ≤ floor

theorem Sound.moves {floor : Nat} {leaf : Leaf} {target : DocId} (sound : Sound floor leaf)
    (above : floor ≤ target.val) :
    (moveTo target).Ends leaf
      (fun _ after => Sound target.val after ∧ after.weight = leaf.weight ∧
        after.capabilities = leaf.capabilities)
      (fun cause => cause.kind = .corruptIndex) := by
  cases shown : leaf.reader.current with
  | none =>
      refine Step.ends_done (moveTo_done target (Block.Reader.isDone_eq_true shown))
        ⟨⟨sound.coherent, ?_, ?_⟩, rfl, rfl⟩
      · intro doc impossible
        rw [shown] at impossible
        cases impossible
      · exact fun running => absurd shown running
  | some doc =>
      have allowed : ¬target < leaf.floor := by
        have low := sound.low (by rw [shown]; exact Option.some_ne_none doc)
        rw [DocId.lt_iff]
        omega
      rw [Step.Ends, moveTo_skips (Block.Reader.isDone_eq_false shown) allowed]
      have skipped := Block.Reader.skipTo_ends sound.coherent target
      refine Step.Ends.imp (Step.ends_onPart skipped) ?_ (fun _ => id)
      rintro _ _ ⟨reader, ⟨coherent, stays, reached⟩, rfl⟩
      refine ⟨⟨coherent, reached, fun _ => Nat.le_refl _⟩, ?_, ?_⟩
      · exact congrArg (fun layout => layout.extents.length) stays.layout
      · unfold Leaf.capabilities
        rw [stays.withExtents]

theorem Sound.raise {floor higher : Nat} {leaf : Leaf} (sound : Sound floor leaf)
    (above : floor ≤ higher) (reached : ∀ doc, leaf.reader.current = some doc → higher ≤ doc.val) :
    Sound higher leaf :=
  ⟨sound.coherent, reached, fun running => (sound.low running).trans above⟩

theorem Sound.exhaust {floor : Nat} {leaf : Leaf} (sound : Sound floor leaf) (higher : Nat) :
    Sound higher leaf.exhaust where
  coherent :=
    ⟨sound.coherent.proper, sound.coherent.groups, sound.coherent.ahead, sound.coherent.decoded,
      fun running => (nomatch running), fun running => (nomatch running)⟩
  reached := fun _ impossible => nomatch impossible
  low := fun running => absurd rfl running

theorem Sound.shown {floor : Nat} {leaf : Leaf} (sound : Sound floor leaf)
    (running : leaf.reader.isDone = false) (reads : leaf.reader.withExtents = true) :
    leaf.reader.extents ≠ [] ∧ Extent.WellOrdered leaf.reader.extents ∧
      leaf.reader.extents.length ≤ leaf.weight := by
  obtain ⟨length, ordered, few⟩ := sound.coherent.shown running reads
  have occurs := sound.coherent.occurs running
  refine ⟨?_, ordered, few⟩
  rw [← List.length_pos_iff, length]
  exact occurs

/-- Leaves over blocks of any bytes. -/
def Law.any : Law where
  Stands := Sound
  Fails cause := cause.kind = .corruptIndex
  reached sound := sound.reached _
  raise := Sound.raise
  moves := Sound.moves
  exhausts sound := sound.exhaust _
  occurs sound := sound.coherent.occurs
  shown := Sound.shown

theorem open?_sound (key : Key) (block : List UInt8) (withExtents : Bool) :
    (∃ leaf, open? key block withExtents = .ok leaf ∧ Sound 0 leaf ∧
      Block.Layout.parse block = .ok leaf.reader.layout ∧
      leaf.reader.withExtents = withExtents) ∨
    ∃ cause, open? key block withExtents = .error cause ∧
      (cause.kind = .corruptIndex ∨ Block.Layout.Overflows block cause) := by
  unfold open?
  rcases Block.Reader.open?_cases block withExtents with
    ⟨reader, opened, coherent, parsed, mode⟩ | ⟨cause, refused, kind⟩
  · rw [opened]
    exact .inl ⟨_, rfl, ⟨coherent, fun _ _ => Nat.zero_le _, fun _ => Nat.le_refl _⟩, parsed, mode⟩
  · rw [refused]
    exact .inr ⟨cause, rfl, kind⟩

/-! ## Blocks of a writer -/

/-- A leaf over the block of some postings. -/
def Stored (floor : Nat) (leaf : Leaf) : Prop :=
  Sound floor leaf ∧ ∃ interval withExtents postings, At interval withExtents postings floor leaf

theorem Stored.moves {floor : Nat} {leaf : Leaf} {target : DocId} (stored : Stored floor leaf)
    (above : floor ≤ target.val) :
    (moveTo target).Ends leaf
      (fun _ after => Stored target.val after ∧ after.weight = leaf.weight ∧
        after.capabilities = leaf.capabilities)
      (fun _ => False) := by
  obtain ⟨sound, interval, withExtents, postings, here⟩ := stored
  obtain ⟨after, run, there⟩ := moveTo_at here above
  obtain ⟨soundAfter, same⟩ := (sound.moves above).of_ok run
  exact Step.ends_done run ⟨⟨soundAfter, interval, withExtents, postings, there⟩, same⟩

theorem Stored.raise {floor higher : Nat} {leaf : Leaf} (stored : Stored floor leaf)
    (above : floor ≤ higher) (reached : ∀ doc, leaf.reader.current = some doc → higher ≤ doc.val) :
    Stored higher leaf := by
  obtain ⟨sound, interval, withExtents, postings, here⟩ := stored
  exact ⟨sound.raise above reached, interval, withExtents, postings, here.raise above reached⟩

theorem Stored.exhaust {floor : Nat} {leaf : Leaf} (stored : Stored floor leaf) :
    Stored 18446744073709551616 leaf.exhaust := by
  obtain ⟨sound, interval, withExtents, postings, here⟩ := stored
  exact ⟨sound.exhaust _, interval, withExtents, postings, exhaust_at here⟩

/-- Leaves over the blocks that a writer made. -/
def Law.stored : Law where
  Stands := Stored
  Fails _ := False
  reached stored := stored.1.reached _
  raise := Stored.raise
  moves := Stored.moves
  exhausts := Stored.exhaust
  occurs stored := stored.1.coherent.occurs
  shown stored := stored.1.shown

end Leaf

end Concordance
