import Concordance.Proofs.Block.Scanning
import Concordance.Proofs.Lockstep

/-!
# Counting without extents

A reader that leaves the extents unread follows one that decodes them, over a block of any
bytes: what ends well for the one ends well for the other and shows the same documents and
counts.  Nothing that is read of the extents bears on them, and the reader that decodes them
is only the more likely to fail.  Over a block that was encoded neither of them does.
-/

namespace Concordance

namespace Block

namespace Reader

/-- What can be asked of a reader: a move, or to leave the block. -/
inductive Call where
  | move (made : Move)
  | exhaust
  deriving DecidableEq

def Call.run : Call → Step Reader Unit
  | move made => made.run
  | exhaust => modify Reader.exhaust

/-- What a reader shows apart from the extents. -/
structure Tally where
  summary : Summary
  current : Option DocId
  count : Nat
  done : Bool
  deriving DecidableEq

def tally (reader : Reader) : Tally :=
  ⟨reader.summary, reader.current, reader.count, reader.isDone⟩

/-- Make calls one after the other.  The tallies are those before the first call and behind
each of them. -/
def watch : List Call → Step Reader (List Tally)
  | [] => do pure [(← get).tally]
  | call :: calls => do
    let shown := (← get).tally
    call.run
    let later ← watch calls
    pure (shown :: later)

/-- Open a block and make calls. -/
def tallies (bytes : List UInt8) (withExtents : Bool) (calls : List Call) :
    Except Error (List Tally) := do
  let reader ← open? bytes withExtents
  (watch calls).evaluate reader

/-! ## Side by side -/

/-- The reader at the same place that leaves the extents unread. -/
def counting (reader : Reader) (unread : List UInt8) : Reader :=
  { reader with withExtents := false, extentBytes := unread, extents := [] }

/-- Being at the same place, behind a step of a reader and of the one that only counts. -/
def Follows {α : Type} (_ : α) (after later : Reader) : Prop :=
  ∃ unread, later = after.counting unread

variable (reader : Reader) (unread : List UInt8)

theorem hasTrailingBytes_counting (clean : reader.hasTrailingBytes = false) :
    (reader.counting unread).hasTrailingBytes = false := by
  unfold hasTrailingBytes at clean ⊢
  exact Bool.or_eq_false_iff.mpr ⟨(Bool.or_eq_false_iff.mp clean).1, rfl⟩

theorem onDocs_counting {α : Type} (read : Step (List UInt8) α) :
    (onDocs read).Vouches (onDocs read) reader (reader.counting unread) Follows :=
  Step.vouches_onPart rfl fun _ _ => ⟨unread, rfl⟩

theorem onCounts_counting {α : Type} (read : Step (List UInt8) α) :
    (onCounts read).Vouches (onCounts read) reader (reader.counting unread) Follows :=
  Step.vouches_onPart rfl fun _ _ => ⟨unread, rfl⟩

theorem modify_counting {change : Reader → Reader}
    (same : (change reader).counting unread = change (reader.counting unread)) :
    Step.Vouches (modify change) (modify change) reader (reader.counting unread) Follows :=
  Step.vouches_done rfl rfl ⟨unread, same.symm⟩

/-- The posting is the same, whether or not its extents are decoded. -/
theorem advance_counting :
    advance.Vouches advance reader (reader.counting unread) Follows := by
  unfold advance
  apply Step.vouches_behind (Step.get_run reader) (Step.get_run (reader.counting unread))
  have last : (reader.counting unread).decoded = (reader.counting unread).layout.summary.docs ↔
    reader.decoded = reader.layout.summary.docs := Iff.rfl
  by_cases ended : reader.decoded = reader.layout.summary.docs
  · rw [if_pos ended, if_pos (last.mpr ended)]
    cases trailing : reader.hasTrailingBytes with
    | true => exact Step.vouches_failed rfl
    | false =>
        rw [hasTrailingBytes_counting reader unread trailing]
        exact Step.vouches_done rfl rfl ⟨unread, rfl⟩
  · rw [if_neg ended, if_neg (mt last.mp ended)]
    apply (onDocs_counting reader unread _).bind
    rintro doc middle _ ⟨unread, rfl⟩
    apply (modify_counting middle unread rfl).bind
    rintro _ middle _ ⟨unread, rfl⟩
    apply (onCounts_counting middle unread _).bind
    rintro count middle _ ⟨unread, rfl⟩
    by_cases zero : count = 0
    · rw [if_pos zero]
      exact Step.vouches_failed rfl
    · rw [if_neg zero, if_neg zero]
      by_cases reads : reader.withExtents = true
      · rw [if_pos reads]
        apply Step.vouches_ahead
        intro _ _ run
        obtain ⟨gathering, _, rfl⟩ := Step.onPart_eq_ok run
        exact Step.vouches_done rfl rfl ⟨unread, rfl⟩
      · rw [if_neg reads]
        exact Step.vouches_done rfl rfl ⟨unread, rfl⟩

theorem advanceTo_counting (target : DocId) (limit : Nat) :
    (advanceTo target limit).Vouches (advanceTo target limit) reader (reader.counting unread)
      Follows := by
  induction limit generalizing reader unread with
  | zero => exact Step.vouches_done rfl rfl ⟨unread, rfl⟩
  | succ limit induction =>
      unfold advanceTo
      apply Step.vouches_behind (Step.get_run reader) (Step.get_run (reader.counting unread))
      have shown : (reader.counting unread).current = reader.current := rfl
      rw [shown]
      cases reader.current with
      | none => exact Step.vouches_done rfl rfl ⟨unread, rfl⟩
      | some doc =>
          dsimp only
          by_cases below : doc < target
          · rw [if_pos below]
            apply (advance_counting reader unread).bind
            rintro _ middle _ ⟨unread, rfl⟩
            exact induction middle unread
          · rw [if_neg below]
            exact Step.vouches_done rfl rfl ⟨unread, rfl⟩

/-- A skip leads both readers into the same group.  There the stream of extents starts anew,
also for the reader that never looks at it. -/
theorem skipTo_counting (target : DocId) :
    (skipTo target).Vouches (skipTo target) reader (reader.counting unread) Follows := by
  unfold skipTo
  apply Step.vouches_behind (Step.get_run reader) (Step.get_run (reader.counting unread))
  have shown : (reader.counting unread).current = reader.current := rfl
  have chosen : (reader.counting unread).groupFor target = reader.groupFor target := rfl
  rw [shown, chosen]
  cases reader.current with
  | none => exact Step.vouches_done rfl rfl ⟨unread, rfl⟩
  | some doc =>
      dsimp only
      by_cases below : doc < target
      · rw [if_pos below, if_pos below]
        cases reader.groupFor target with
        | none => exact advanceTo_counting reader unread target _
        | some entry =>
            obtain ⟨group, before⟩ := entry
            apply Step.vouches_behind (Step.set_run _ _) (Step.set_run _ _)
            apply (advance_counting (reader.enterGroup group before) group.extents).bind
            rintro _ middle _ ⟨unread, rfl⟩
            exact advanceTo_counting middle unread target _
      · rw [if_neg below, if_neg below]
        exact Step.vouches_done rfl rfl ⟨unread, rfl⟩

theorem Call.run_counting (call : Call) :
    call.run.Vouches call.run reader (reader.counting unread) Follows := by
  cases call with
  | exhaust => exact Step.vouches_done rfl rfl ⟨unread, rfl⟩
  | move made =>
      cases made with
      | advance => exact advance_counting reader unread
      | skipTo target => exact skipTo_counting reader unread target

/-- Where all calls succeed, they show the same to the reader that only counts. -/
theorem watch_counting (calls : List Call) :
    (watch calls).Vouches (watch calls) reader (reader.counting unread) fun _ _ _ => True := by
  induction calls generalizing reader unread with
  | nil => exact Step.vouches_done rfl rfl trivial
  | cons call calls induction =>
      unfold watch
      apply Step.vouches_behind (Step.get_run reader) (Step.get_run (reader.counting unread))
      apply (call.run_counting reader unread).bind
      rintro _ middle _ ⟨unread, rfl⟩
      apply (induction middle unread).bind
      intro later _ _ _
      exact Step.vouches_done rfl rfl trivial

theorem open?_counting {bytes : List UInt8} {reader : Reader}
    (opened : open? bytes true = .ok reader) :
    ∃ unread, open? bytes false = .ok (reader.counting unread) := by
  unfold open? at opened
  obtain ⟨layout, parsed, opened⟩ := Step.ok_of_bind opened
  have follows := advance_counting (atStart layout true) layout.extents
  cases run : advance (atStart layout true) with
  | error cause after =>
      rw [run] at opened
      cases opened
  | ok _ after =>
      rw [run] at opened
      cases opened
      obtain ⟨_, ran, unread, rfl⟩ := follows _ _ run
      exact ⟨unread, open?_of_parse parsed ran⟩

/-! ## Blocks that were encoded -/

/-- A reader of some postings wherever calls can leave it: in front of postings, or done in the
middle of them. -/
inductive Placed (interval : Nat) (withExtents : Bool) (postings : List Posting)
    (reader : Reader) : Prop where
  | stands {ahead : List Posting}
      (here : Ahead interval withExtents postings ahead reader) :
      Placed interval withExtents postings reader
  | left {front back : List Posting} (split : front ++ back = postings)
      (between : Between interval withExtents front back reader)
      (hidden : reader.current = none) : Placed interval withExtents postings reader

variable {interval : Nat} {withExtents : Bool} {postings : List Posting} {reader : Reader}

theorem Placed.exhaust (placed : Placed interval withExtents postings reader) :
    Placed interval withExtents postings reader.exhaust := by
  cases placed with
  | stands here =>
      obtain ⟨passed, split, standing⟩ := here
      cases standing with
      | done between => exact .left split (between_exhaust between) rfl
      | shows between =>
          refine .left ?_ (between_exhaust between) rfl
          rw [List.append_assoc, List.singleton_append, split]
  | left split between => exact .left split (between_exhaust between) rfl

/-- Every call succeeds, also an advance of a reader that was exhausted before: it goes on where
it was left. -/
theorem Placed.run (stored : Stored interval postings)
    (placed : Placed interval withExtents postings reader) (call : Call) :
    ∃ after, call.run reader = .ok () after ∧ Placed interval withExtents postings after := by
  cases call with
  | exhaust => exact ⟨reader.exhaust, rfl, placed.exhaust⟩
  | move made =>
      cases placed with
      | stands here =>
          obtain ⟨after, run, there⟩ := Move.run_ahead stored here made
          exact ⟨after, run, .stands there⟩
      | left split between hidden =>
          cases made with
          | advance =>
              obtain ⟨after, run, standing⟩ := advance_between (split.symm ▸ stored) between
              exact ⟨after, run, .stands ⟨_, split, standing⟩⟩
          | skipTo target =>
              refine ⟨reader, skipTo_reached ?_, .left split between hidden⟩
              rw [hidden]
              exact fun _ impossible => nomatch impossible

theorem Placed.watch (stored : Stored interval postings)
    (placed : Placed interval withExtents postings reader) (calls : List Call) :
    ∃ shown after, Reader.watch calls reader = .ok shown after := by
  induction calls generalizing reader with
  | nil => exact ⟨_, reader, rfl⟩
  | cons call calls induction =>
      obtain ⟨middle, run, placedMiddle⟩ := placed.run stored call
      obtain ⟨later, after, rest⟩ := induction placedMiddle
      refine ⟨reader.tally :: later, after, ?_⟩
      rw [Reader.watch, Step.bind_ok _ (Step.get_run reader), Step.bind_ok _ run,
        Step.bind_ok _ rest]
      rfl

/-- Over any bytes and any calls: where a reader that decodes extents succeeds in everything, one
that leaves them unread does too and shows the same.  Over an encoded block both succeed. -/
theorem tallies_counting (bytes : List UInt8) (calls : List Call) :
    (∀ shown, tallies bytes true calls = .ok shown → tallies bytes false calls = .ok shown) ∧
      ∀ interval postings, Encoded interval postings bytes →
        ∃ shown, tallies bytes true calls = .ok shown ∧
          tallies bytes false calls = .ok shown := by
  have follows : ∀ shown, tallies bytes true calls = .ok shown →
      tallies bytes false calls = .ok shown := by
    intro shown succeeds
    obtain ⟨reader, opened, run⟩ := Step.ok_of_bind succeeds
    obtain ⟨after, watched⟩ := Step.evaluate_eq_ok run
    obtain ⟨unread, openedBare⟩ := open?_counting opened
    obtain ⟨_, watchedBare, _⟩ := watch_counting reader unread calls shown after watched
    rw [tallies, openedBare, Step.ok_bind]
    exact Step.evaluate_ok watchedBare
  refine ⟨follows, ?_⟩
  intro interval postings encoded
  obtain ⟨reader, opened, here⟩ := open?_encoded encoded true
  obtain ⟨shown, after, watched⟩ := (Placed.stands here).watch encoded.image.2 calls
  have succeeds : tallies bytes true calls = .ok shown := by
    rw [tallies, opened, Step.ok_bind]
    exact Step.evaluate_ok watched
  exact ⟨shown, succeeds, follows shown succeeds⟩

/-- A skip over a group, an end too early and an advance back into the block.  In the second
block the skip entry names document 8 in place of 7, from which the last gap then counts. -/
theorem tallies_counting_forged :
    let postings : List Posting := [⟨.ofNat 3, 1, [.ofNats 0 1]⟩,
      ⟨.ofNat 7, 2, [.ofNats 0 4, .ofNats 2 3]⟩, ⟨.ofNat 9, 1, [.ofNats 5 9]⟩]
    let encoded : List UInt8 := [3, 4, 2, 1, 2, 8, 3, 3, 8, 3, 1, 1, 2, 4, 1, 1, 4, 3, 4, 2, 1, 2,
      1, 0, 1, 0, 4, 2, 1, 5, 4]
    let forged : List UInt8 := [3, 4, 2, 1, 2, 8, 3, 3, 8, 3, 1, 1, 2, 5, 1, 1, 4, 3, 4, 2, 1, 2,
      1, 0, 1, 0, 4, 2, 1, 5, 4]
    let calls : List Call := [.move (.skipTo (.ofNat 9)), .exhaust, .move .advance]
    let shown : List Tally := [⟨⟨3, 4, 2⟩, some (.ofNat 3), 1, false⟩,
      ⟨⟨3, 4, 2⟩, some (.ofNat 10), 1, false⟩, ⟨⟨3, 4, 2⟩, none, 0, true⟩,
      ⟨⟨3, 4, 2⟩, none, 0, true⟩]
    (Encoded 1 postings encoded ∧
      ∃ shown, tallies encoded true calls = .ok shown ∧ tallies encoded false calls = .ok shown) ∧
    tallies forged true calls = .ok shown ∧ tallies forged false calls = .ok shown := by
  intro postings encoded forged calls shown
  have isEncoded : Encoded 1 postings encoded :=
    ⟨⟨by decide, by decide, by decide⟩, by cbv, by decide⟩
  have succeeds : tallies forged true calls = .ok shown := by cbv
  exact ⟨⟨isEncoded, (tallies_counting encoded calls).2 1 postings isEncoded⟩, succeeds,
    (tallies_counting forged calls).1 shown succeeds⟩

end Reader

end Block

end Concordance
