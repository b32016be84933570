import Concordance.Proofs.Block.Counting

/-!
# Readers that are done

A reader of an encoded block is done behind the last posting, behind a skip that finds none and
when it was exhausted.  In the first two cases it stays done whatever is asked of it.  An
exhausted reader shows nothing either, and neither a skip nor leaving it again changes that.
But its streams are where they were, so an advance takes it to the next posting of the block:
it stays done under every call just if nothing was left ahead of it.
-/

namespace Concordance

namespace Block

namespace Reader

/-- Make calls one after the other, up to the first that fails. -/
def Call.runAll (calls : List Call) : Step Reader Unit := calls.forM Call.run

/-- A reader that shows nothing, with some postings left in its streams. -/
structure Resting (interval : Nat) (withExtents : Bool) (postings back : List Posting)
    (reader : Reader) : Prop where
  between : ∃ front, front ++ back = postings ∧ Between interval withExtents front back reader
  blank : reader.exhaust = reader

variable {interval : Nat} {withExtents : Bool} {postings back ahead : List Posting}
  {reader : Reader}

theorem Resting.current (rests : Resting interval withExtents postings back reader) :
    reader.current = none :=
  (congrArg Reader.current rests.blank).symm

theorem Ahead.resting (here : Ahead interval withExtents postings [] reader) :
    Resting interval withExtents postings [] reader := by
  obtain ⟨passed, split, standing⟩ := here
  cases standing with
  | done between blank => exact ⟨⟨passed, split, between⟩, blank⟩

/-- A reader that is exhausted keeps what was ahead of it, save the posting it showed. -/
theorem Ahead.exhaust (here : Ahead interval withExtents postings ahead reader) :
    Resting interval withExtents postings ahead.tail reader.exhaust := by
  obtain ⟨passed, split, standing⟩ := here
  cases standing with
  | done between => exact ⟨⟨passed, split, between_exhaust between⟩, rfl⟩
  | @shows posting back between =>
      have regrouped : (passed ++ [posting]) ++ back = postings := by simpa using split
      exact ⟨⟨passed ++ [posting], regrouped, between_exhaust between⟩, rfl⟩

/-- Only an advance moves a reader that is done, and not even that behind the last posting. -/
theorem Resting.run_still (rests : Resting interval withExtents postings back reader)
    {call : Call} (still : back = [] ∨ call ≠ .move .advance) :
    call.run reader = .ok () reader := by
  cases call with
  | exhaust => exact congrArg (EStateM.Result.ok ()) rests.blank
  | move made =>
      cases made with
      | skipTo target =>
          apply skipTo_reached
          rw [rests.current]
          exact fun _ impossible => nomatch impossible
      | advance =>
          obtain rfl := still.resolve_right (not_not_intro rfl)
          obtain ⟨_, _, between⟩ := rests.between
          exact (advance_end between).trans (congrArg (EStateM.Result.ok ()) rests.blank)

theorem Resting.runAll_still (rests : Resting interval withExtents postings back reader)
    {calls : List Call} (still : back = [] ∨ .move .advance ∉ calls) :
    Call.runAll calls reader = .ok () reader := by
  induction calls with
  | nil => rfl
  | cons call calls induction =>
      have here : back = [] ∨ call ≠ .move .advance :=
        still.imp_right fun absent same => absent (same ▸ List.mem_cons_self)
      have later := induction (still.imp_right (mt (List.mem_cons_of_mem call)))
      exact (Step.bind_ok _ (rests.run_still here)).trans later

/-- An advance shows the first of the postings that are left. -/
theorem Resting.advance (stored : Stored interval postings)
    (rests : Resting interval withExtents postings back reader) :
    ∃ after, Reader.advance reader = .ok () after ∧
      Ahead interval withExtents postings back after := by
  obtain ⟨front, rfl, between⟩ := rests.between
  obtain ⟨after, run, standing⟩ := advance_between stored between
  exact ⟨after, run, front, rfl, standing⟩

/-- Where calls can leave a reader.  What rests before the last posting was exhausted. -/
inductive Left (interval : Nat) (withExtents : Bool) (postings : List Posting)
    (made : List Call) (reader : Reader) : Prop where
  | stands {ahead : List Posting} (here : Ahead interval withExtents postings ahead reader) :
      Left interval withExtents postings made reader
  | rests {back : List Posting} (exhausted : .exhaust ∈ made)
      (here : Resting interval withExtents postings back reader) :
      Left interval withExtents postings made reader

theorem Left.run {made : List Call} (stored : Stored interval postings)
    (left : Left interval withExtents postings made reader) (call : Call) :
    ∃ after, call.run reader = .ok () after ∧
      Left interval withExtents postings (made ++ [call]) after := by
  cases left with
  | stands here =>
      cases call with
      | exhaust => exact ⟨reader.exhaust, rfl, .rests (by simp) here.exhaust⟩
      | move move =>
          obtain ⟨after, run, there⟩ := Move.run_ahead stored here move
          exact ⟨after, run, .stands there⟩
  | rests exhausted here =>
      by_cases advances : call = .move .advance
      · subst advances
        obtain ⟨after, run, there⟩ := here.advance stored
        exact ⟨after, run, .stands there⟩
      · exact ⟨reader, here.run_still (.inr advances),
          .rests (List.mem_append_left _ exhausted) here⟩

theorem Left.runAll {made : List Call} (stored : Stored interval postings)
    (left : Left interval withExtents postings made reader) (calls : List Call) :
    ∃ after, Call.runAll calls reader = .ok () after ∧
      Left interval withExtents postings (made ++ calls) after := by
  induction calls generalizing made reader with
  | nil => exact ⟨reader, rfl, (List.append_nil made).symm ▸ left⟩
  | cons call calls induction =>
      obtain ⟨middle, run, leftMiddle⟩ := left.run stored call
      obtain ⟨after, later, leftAfter⟩ := induction leftMiddle
      refine ⟨after, (Step.bind_ok _ run).trans later, ?_⟩
      rwa [List.append_assoc, List.singleton_append] at leftAfter

/-- A reader that is done rests, behind the last posting unless it was exhausted. -/
theorem Left.resting {made : List Call} (left : Left interval withExtents postings made reader)
    (done : reader.isDone = true) :
    ∃ back, Resting interval withExtents postings back reader ∧
      (.exhaust ∉ made → back = []) := by
  cases left with
  | rests exhausted here => exact ⟨_, here, fun absent => absurd exhausted absent⟩
  | @stands ahead here =>
      cases ahead with
      | nil => exact ⟨[], here.resting, fun _ => rfl⟩
      | cons posting back =>
          have shown : reader.isDone = false := congrArg View.done here.view
          rw [shown] at done
          cases done

/-- Over an encoded block every call succeeds.  A reader that is done has some of the last
postings left, none if it was never exhausted.  It stays as it is under all calls if none are
left, and under all but an advance if some are; an advance shows the first of them. -/
theorem done_rests {bytes : List UInt8} (encoded : Encoded interval postings bytes)
    (withExtents : Bool) :
    ∃ opened, open? bytes withExtents = .ok opened ∧
      ∀ calls, ∃ reached, Call.runAll calls opened = .ok () reached ∧
        (reached.isDone = true → ∃ back, back <:+ postings ∧
          (.exhaust ∉ calls → back = []) ∧
          (∀ further, back = [] ∨ .move .advance ∉ further →
            Call.runAll further reached = .ok () reached) ∧
          ∃ after, Reader.advance reached = .ok () after ∧
            after.view = View.of withExtents back) := by
  obtain ⟨opened, known, here⟩ := open?_encoded encoded withExtents
  obtain ⟨_, stored⟩ := encoded.image
  refine ⟨opened, known, fun calls => ?_⟩
  have begun : Left (max interval 1) withExtents postings [] opened := .stands here
  obtain ⟨reached, run, left⟩ := begun.runAll stored calls
  refine ⟨reached, run, fun done => ?_⟩
  obtain ⟨back, rests, left⟩ := left.resting done
  obtain ⟨front, split, _⟩ := rests.between
  obtain ⟨after, advanced, there⟩ := rests.advance stored
  exact ⟨back, ⟨front, split⟩, left, fun _ still => rests.runAll_still still,
    after, advanced, there.view⟩

theorem done_rests_behind :
    let postings : List Posting := [⟨.ofNat 1, 1, [.ofNats 0 1]⟩, ⟨.ofNat 2, 1, [.ofNats 0 1]⟩]
    let bytes : List UInt8 := [2, 2, 1, 128, 1, 0, 0, 2, 2, 4, 1, 1, 1, 1, 0, 1, 0, 1]
    Encoded 128 postings bytes ∧
      ∃ opened, open? bytes true = .ok opened ∧
        ∃ reached, Call.runAll [.move (.skipTo (.ofNat 3))] opened = .ok () reached ∧
          reached.isDone = true ∧
          Call.runAll [.move .advance, .exhaust, .move .advance] reached = .ok () reached := by
  intro postings bytes
  have encoded : Encoded 128 postings bytes :=
    ⟨⟨by decide, by decide, by decide⟩, by cbv, by decide⟩
  obtain ⟨opened, known, rests⟩ := done_rests encoded true
  refine ⟨encoded, opened, known, ?_⟩
  obtain ⟨reached, run, stays⟩ := rests [.move (.skipTo (.ofNat 3))]
  have done : reached.isDone = true := by
    have shows : (open? bytes true).toOption.map (fun opened =>
        ((Call.runAll [.move (.skipTo (.ofNat 3))]).endState opened).isDone) = some true := by cbv
    simpa [known, Except.toOption, Step.endState_ok run] using shows
  obtain ⟨back, _, left, still, _⟩ := stays done
  exact ⟨reached, run, done, still _ (.inl (left (by decide)))⟩

/-- Two postings: a reader that is exhausted on the first shows the second behind an advance. -/
theorem not_done_forever : ¬∀ (interval : Nat) (postings : List Posting) (bytes : List UInt8)
    (withExtents : Bool) (opened reached after : Reader) (calls further : List Call),
    Encoded interval postings bytes → open? bytes withExtents = .ok opened →
      Call.runAll calls opened = .ok () reached → reached.isDone = true →
        Call.runAll further reached = .ok () after → after.isDone = true := by
  intro forever
  let postings : List Posting := [⟨.ofNat 1, 1, [.ofNats 0 1]⟩, ⟨.ofNat 2, 1, [.ofNats 0 1]⟩]
  let bytes : List UInt8 := [2, 2, 1, 128, 1, 0, 0, 2, 2, 4, 1, 1, 1, 1, 0, 1, 0, 1]
  have encoded : Encoded 128 postings bytes :=
    ⟨⟨by decide, by decide, by decide⟩, by cbv, by decide⟩
  have done := forever 128 postings bytes true _ _ _ [.exhaust] [.move .advance] encoded
    rfl rfl rfl rfl
  cases done

end Reader

end Block

end Concordance
