import Concordance.Proofs.Block.RoundTrip
import Concordance.Proofs.Block.Skip

/-!
# Skipping and scanning

A reader comes to a target in one skip or posting by posting.  Both ways end in states
that no later move can tell apart.  All that a reader shows is fixed by the postings ahead
of it, so the skip interval of a block is no part of it.
-/

namespace Concordance

namespace Block

namespace Reader

/-- What a reader shows of itself. -/
structure View where
  current : Option DocId
  count : Nat
  extents : List Extent
  done : Bool
  deriving DecidableEq

def view (reader : Reader) : View :=
  ⟨reader.current, reader.count, reader.extents, reader.isDone⟩

inductive Move where
  | advance
  | skipTo (target : DocId)
  deriving DecidableEq

def Move.run : Move → Step Reader Unit
  | advance => Reader.advance
  | skipTo target => Reader.skipTo target

def Move.runAll (moves : List Move) : Step Reader Unit := moves.forM Move.run

/-- How moves end one after the other, each with the view behind it.  A move that fails does
not keep the later ones from being made. -/
def observe : List Move → Reader → List (Except Error Unit × View)
  | [], _ => []
  | move :: moves, reader =>
    match move.run reader with
    | .ok _ after => (.ok (), after.view) :: observe moves after
    | .error cause after => (.error cause, after.view) :: observe moves after

/-- Readers that show the same, now and after any moves. -/
def Alike (first second : Reader) : Prop :=
  first.view = second.view ∧ ∀ moves, observe moves first = observe moves second

/-- Advancing again and again while the current document lies below a target. -/
inductive Scans (target : DocId) : Reader → Reader → Prop where
  | stop {reader : Reader} (reached : ∀ doc, reader.current = some doc → target ≤ doc) :
      Scans target reader reader
  | again {reader middle after : Reader} {doc : DocId} (known : reader.current = some doc)
      (less : doc < target) (advanced : advance reader = .ok () middle)
      (later : Scans target middle after) : Scans target reader after

theorem Scans.unique {target : DocId} {reader first second : Reader}
    (scansFirst : Scans target reader first) (scansSecond : Scans target reader second) :
    first = second := by
  induction scansFirst with
  | stop reached =>
      cases scansSecond with
      | stop => rfl
      | again known less => exact absurd (reached _ known) (DocId.not_le.mpr less)
  | again known less advanced _ induction =>
      cases scansSecond with
      | stop reached => exact absurd (reached _ known) (DocId.not_le.mpr less)
      | again _ _ advancedToo later =>
          rw [advanced] at advancedToo
          cases advancedToo
          exact induction later

theorem scans_of_advanceTo {target : DocId} {limit : Nat} {reader after : Reader}
    (run : advanceTo target limit reader = .ok () after)
    (reached : ∀ doc, after.current = some doc → target ≤ doc) : Scans target reader after := by
  induction limit generalizing reader with
  | zero =>
      cases run
      exact .stop reached
  | succ limit induction =>
      cases known : reader.current with
      | none =>
          rw [advanceTo_done known] at run
          cases run
          exact .stop reached
      | some doc =>
          by_cases less : doc < target
          · rw [advanceTo_below known less] at run
            obtain ⟨_, middle, advanced, later⟩ := Step.bind_eq_ok run
            exact .again known less advanced (induction later)
          · rw [advanceTo_reached known (DocId.not_lt.mp less)] at run
            cases run
            exact .stop reached

/-! ## The postings ahead -/

/-- What a reader shows in front of some postings. -/
def View.of (withExtents : Bool) : List Posting → View
  | [] => ⟨none, 0, [], true⟩
  | posting :: _ =>
    ⟨some posting.doc, posting.count, if withExtents then posting.extents else [], false⟩

/-- A reader of some postings that has these ahead. -/
def Ahead (interval : Nat) (withExtents : Bool) (postings ahead : List Posting)
    (reader : Reader) : Prop :=
  ∃ passed, passed ++ ahead = postings ∧ Standing interval withExtents passed reader ahead

/-- The postings ahead behind a move. -/
def Move.onward : Move → List Posting → List Posting
  | advance, ahead => ahead.tail
  | skipTo target, ahead => ahead.dropWhile (isBelow target)

/-- What moves show in front of some postings. -/
def glimpses (withExtents : Bool) :
    List Move → List Posting → List (Except Error Unit × View)
  | [], _ => []
  | move :: moves, ahead =>
    (.ok (), View.of withExtents (move.onward ahead)) ::
      glimpses withExtents moves (move.onward ahead)

variable {interval : Nat} {withExtents : Bool} {postings ahead : List Posting} {reader : Reader}

theorem Standing.view {passed : List Posting}
    (standing : Standing interval withExtents passed reader ahead) :
    reader.view = View.of withExtents ahead := by
  cases standing with
  | done _ blank =>
      rw [← blank]
      rfl
  | shows _ shown =>
      have known := current_of_posting? shown
      simp only [posting?, known, Option.map_some, seen_of_extents, Option.some.injEq,
        Posting.mk.injEq, true_and] at shown
      simp [Reader.view, View.of, isDone, known, shown]

theorem Standing.advance {passed : List Posting} (stored : Stored interval (passed ++ ahead))
    (standing : Standing interval withExtents passed reader ahead) :
    ∃ after, Reader.advance reader = .ok () after ∧
      Ahead interval withExtents (passed ++ ahead) ahead.tail after := by
  cases standing with
  | done between blank =>
      refine ⟨reader, ?_, passed, rfl, .done between blank⟩
      simpa [blank] using advance_end between
  | @shows posting back between shown =>
      have regrouped : (passed ++ [posting]) ++ back = passed ++ posting :: back := by simp
      obtain ⟨after, advanced, standing⟩ := advance_between (regrouped ▸ stored) between
      exact ⟨after, advanced, passed ++ [posting], regrouped, standing⟩

theorem Ahead.view (here : Ahead interval withExtents postings ahead reader) :
    reader.view = View.of withExtents ahead := by
  obtain ⟨_, _, standing⟩ := here
  exact standing.view

/-- Every move succeeds and leaves a reader in front of the postings that it leads to. -/
theorem Move.run_ahead (stored : Stored interval postings)
    (here : Ahead interval withExtents postings ahead reader) (move : Move) :
    ∃ after, move.run reader = .ok () after ∧
      Ahead interval withExtents postings (move.onward ahead) after := by
  obtain ⟨passed, rfl, standing⟩ := here
  cases move with
  | advance => exact standing.advance stored
  | skipTo target =>
      obtain ⟨after, run, final⟩ := skipTo_standing stored standing
      refine ⟨after, run, _, ?_, final⟩
      simp only [onward, List.append_assoc, List.takeWhile_append_dropWhile]

theorem Move.runAll_ahead (stored : Stored interval postings)
    (here : Ahead interval withExtents postings ahead reader) (moves : List Move) :
    ∃ after left, Move.runAll moves reader = .ok () after ∧
      Ahead interval withExtents postings left after := by
  induction moves generalizing reader ahead with
  | nil => exact ⟨reader, ahead, rfl, here⟩
  | cons move moves induction =>
      obtain ⟨middle, run, there⟩ := Move.run_ahead stored here move
      obtain ⟨after, left, later, final⟩ := induction there
      refine ⟨after, left, ?_, final⟩
      exact (Step.bind_ok _ run).trans later

theorem observe_ahead (stored : Stored interval postings)
    (here : Ahead interval withExtents postings ahead reader) (moves : List Move) :
    observe moves reader = glimpses withExtents moves ahead := by
  induction moves generalizing reader ahead with
  | nil => rfl
  | cons move moves induction =>
      obtain ⟨after, run, there⟩ := Move.run_ahead stored here move
      simp only [observe, run, glimpses, there.view, induction there]

/-- Readers of blocks with any intervals are alike in front of the same postings. -/
theorem alike_of_ahead {other : Nat} {otherReader : Reader} (stored : Stored interval postings)
    (otherStored : Stored other postings)
    (here : Ahead interval withExtents postings ahead reader)
    (there : Ahead other withExtents postings ahead otherReader) : Alike reader otherReader := by
  constructor
  · rw [here.view, there.view]
  · intro moves
    rw [observe_ahead stored here, observe_ahead otherStored there]

/-- Scanning to a target passes the same postings as skipping to it. -/
theorem scans_ahead {target : DocId} (stored : Stored interval postings)
    (here : Ahead interval withExtents postings ahead reader) :
    ∃ after, Scans target reader after ∧
      Ahead interval withExtents postings ((Move.skipTo target).onward ahead) after := by
  obtain ⟨passed, rfl, standing⟩ := here
  obtain ⟨after, run, final⟩ :=
    @advanceTo_standing _ _ _ _ _ target _ stored standing (Nat.le_refl _)
  refine ⟨after, scans_of_advanceTo run ?_, _, ?_, final⟩
  · intro doc known
    rw [final.current] at known
    obtain ⟨posting, first, rfl⟩ := Option.map_eq_some_iff.mp known
    have stops := List.head?_dropWhile_not (isBelow target) ahead
    rw [first] at stops
    exact DocId.not_lt.mp (by simpa [isBelow] using stops)
  · simp only [Move.onward, List.append_assoc, List.takeWhile_append_dropWhile]

end Reader

/-! ## Blocks of the same postings -/

/-- The bytes of a block to which postings are encoded on a machine with addresses of 64
bits. -/
structure Encoded (interval : Nat) (postings : List Posting) (bytes : List UInt8) : Prop where
  addressable : Addressable interval postings
  made : encode postings interval = .ok bytes
  length_lt : bytes.length < 9223372036854775808

theorem encoded_of_length {interval length : Nat} {postings : List Posting}
    (addressable : Addressable interval postings)
    (made : (encode postings interval).toOption.map List.length = some length)
    (short : length < 9223372036854775808) : ∃ bytes, Encoded interval postings bytes := by
  cases run : encode postings interval with
  | error cause => simp [run, Except.toOption] at made
  | ok bytes =>
      simp only [run, Except.toOption, Option.map_some, Option.some.injEq] at made
      exact ⟨bytes, addressable, run, made ▸ short⟩

theorem Encoded.image {interval : Nat} {postings : List Posting} {bytes : List UInt8}
    (encoded : Encoded interval postings bytes) :
    bytes = Block.image (max interval 1) postings ∧ Stored (max interval 1) postings := by
  rcases encode_cases postings interval with ⟨done, encodable⟩ | ⟨cause, refused, _⟩
  · have same : bytes = Block.image (max interval 1) postings := by
      simpa [encoded.made] using done
    have short := encoded.length_lt
    rw [same] at short
    exact ⟨same, stored_of_addressable encoded.addressable encodable short⟩
  · simp [encoded.made] at refused

namespace Reader

/-- A block can be opened, and its reader has all postings ahead. -/
theorem open?_encoded {interval : Nat} {postings : List Posting} {bytes : List UInt8}
    (encoded : Encoded interval postings bytes) (withExtents : Bool) :
    ∃ reader, open? bytes withExtents = .ok reader ∧
      Ahead (max interval 1) withExtents postings postings reader := by
  obtain ⟨rfl, stored⟩ := encoded.image
  obtain ⟨reader, opened, standing⟩ := open?_standing stored withExtents
  exact ⟨reader, opened, [], rfl, standing⟩

/-- From every state that moves lead to, a skip succeeds and ends like the scan to the same
target.  Readers of two blocks of the same postings are alike. -/
theorem skipTo_alike_scan {interval other : Nat} {postings : List Posting}
    {bytes otherBytes : List UInt8} (encoded : Encoded interval postings bytes)
    (otherEncoded : Encoded other postings otherBytes) (withExtents : Bool) :
    ∃ opened otherOpened, open? bytes withExtents = .ok opened ∧
      open? otherBytes withExtents = .ok otherOpened ∧ Alike opened otherOpened ∧
      ∀ moves, ∃ reached, Move.runAll moves opened = .ok () reached ∧
        ∀ target, ∃ jumped scanned, skipTo target reached = .ok () jumped ∧
          Scans target reached scanned ∧ Alike jumped scanned := by
  have stored := encoded.image.2
  obtain ⟨opened, isOpened, here⟩ := open?_encoded encoded withExtents
  obtain ⟨otherOpened, isOtherOpened, there⟩ := open?_encoded otherEncoded withExtents
  refine ⟨opened, otherOpened, isOpened, isOtherOpened, ?_, ?_⟩
  · exact alike_of_ahead stored otherEncoded.image.2 here there
  · intro moves
    obtain ⟨reached, left, run, standing⟩ := Move.runAll_ahead stored here moves
    refine ⟨reached, run, ?_⟩
    intro target
    obtain ⟨jumped, skips, behindSkip⟩ := Move.run_ahead stored standing (.skipTo target)
    obtain ⟨scanned, scans, behindScan⟩ := scans_ahead stored standing
    exact ⟨jumped, scanned, skips, scans, alike_of_ahead stored stored behindSkip behindScan⟩

/-- Three documents in groups of one and in one group.  The skip from the first of them
leads over a whole group to the last one. -/
theorem skipTo_alike_scan_groups :
    let postings : List Posting := [⟨.ofNat 3, 1, [.ofNats 0 1]⟩,
      ⟨.ofNat 7, 2, [.ofNats 0 4, .ofNats 2 3]⟩, ⟨DocId.top, 1, [.ofNats 5 9]⟩]
    ∃ bytes otherBytes, Encoded 1 postings bytes ∧ Encoded 128 postings otherBytes ∧
      ∃ opened otherOpened, open? bytes true = .ok opened ∧
        open? otherBytes true = .ok otherOpened ∧ Alike opened otherOpened ∧
        ∃ jumped scanned, skipTo (.ofNat 8) opened = .ok () jumped ∧
          Scans (.ofNat 8) opened scanned ∧ Alike jumped scanned := by
  intro postings
  obtain ⟨bytes, encoded⟩ := @encoded_of_length 1 40 postings
    ⟨by decide, by decide, by decide⟩ (by cbv) (by decide)
  obtain ⟨otherBytes, otherEncoded⟩ := @encoded_of_length 128 33 postings
    ⟨by decide, by decide, by decide⟩ (by cbv) (by decide)
  obtain ⟨opened, otherOpened, isOpened, isOtherOpened, alike, skips⟩ :=
    skipTo_alike_scan encoded otherEncoded true
  obtain ⟨_, run, ends⟩ := skips []
  cases run
  exact ⟨bytes, otherBytes, encoded, otherEncoded, opened, otherOpened, isOpened, isOtherOpened,
    alike, ends _⟩

end Reader

end Block

end Concordance
