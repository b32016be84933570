import Concordance.Proofs.Block.Trail

/-!
# Decoding a block of any bytes

A walk over a parsed block hands out postings that could have been written, whoever wrote the
block, and then ends for good, with at most one failure before the end.  If there is none it
has handed out as many postings as the block announces, and they have a block of their own that
is decoded to them again.
-/

namespace Concordance

namespace Block

namespace Reader

variable {reader : Reader}

theorem posting?_eq_some {posting : Posting} (shown : reader.posting? = some posting) :
    reader.current = some posting.doc ∧ posting.count = reader.count ∧
      posting.extents = reader.extents := by
  obtain ⟨doc, known, rfl⟩ := Option.map_eq_some_iff.mp shown
  exact ⟨known, rfl, rfl⟩

/-- A settled reader that reads extents shows whole postings. -/
theorem Settled.wellFormed (settled : reader.Settled) (reads : reader.withExtents = true)
    {posting : Posting} (shown : reader.posting? = some posting) :
    posting.WellFormed ∧ posting.count < 4294967296 := by
  obtain ⟨known, count, extents⟩ := posting?_eq_some shown
  have running := isDone_eq_false known
  obtain ⟨occurs, small⟩ := settled.whole.occurs running
  obtain ⟨counted, ordered⟩ := settled.whole.listed running reads
  dsimp only [view] at occurs small counted ordered
  refine ⟨⟨by rw [count, extents, counted], ?_, extents ▸ ordered⟩, count ▸ small⟩
  rw [extents, ← List.length_pos_iff, ← counted]
  exact occurs

end Reader

namespace Walk

open Reader (Settled)

variable {reader : Reader}

/-- Postings that are handed out behind the one on which a reader stands, with the failure that
ends them early. -/
structure Hands (reader : Reader) (postings : List Posting) (failure : Option Error) : Prop where
  encodable : Encodable postings
  above : ∀ doc, reader.current = some doc → ∀ posting ∈ postings, doc < posting.doc
  small : ∀ posting ∈ postings, posting.count < 4294967296
  corrupt : ∀ cause ∈ failure, cause.kind = .corruptIndex
  complete : failure = none → reader.decoded + postings.length = reader.layout.summary.docs

theorem Hands.nil {failure : Option Error} (corrupt : ∀ cause ∈ failure, cause.kind = .corruptIndex)
    (complete : failure = none → reader.decoded = reader.layout.summary.docs) :
    Hands reader [] failure :=
  ⟨⟨.nil, List.forall_mem_nil _⟩, fun _ _ => List.forall_mem_nil _, List.forall_mem_nil _, corrupt,
    complete⟩

/-- Nothing is left behind the last posting. -/
theorem Hands.none (last : reader.decoded = reader.layout.summary.docs) : Hands reader [] none :=
  .nil (fun cause member => absurd member (Option.not_mem_none cause)) fun _ => last

/-- A failure ends what is handed out. -/
theorem Hands.failed {cause : Error} (corrupt : cause.kind = .corruptIndex) :
    Hands reader [] (some cause) :=
  .nil (fun _ same => Option.some.inj same ▸ corrupt) fun same => absurd same (Option.some_ne_none _)

theorem Hands.cons {middle : Reader} {posting : Posting} {postings : List Posting}
    {failure : Option Error} (hands : Hands middle postings failure)
    (layout : middle.layout = reader.layout) (shown : middle.current = some posting.doc)
    (decoded : middle.decoded = reader.decoded + 1)
    (above : ∀ doc, reader.current = some doc → doc < posting.doc)
    (wellFormed : posting.WellFormed) (small : posting.count < 4294967296) :
    Hands reader (posting :: postings) failure := by
  have later := hands.above posting.doc shown
  refine ⟨⟨List.pairwise_cons.mpr ⟨later, hands.encodable.ascending⟩, ?_⟩, ?_, ?_, hands.corrupt,
    ?_⟩
  · exact List.forall_mem_cons.mpr ⟨wellFormed, hands.encodable.wellFormed⟩
  · intro doc left
    have here := above doc left
    exact List.forall_mem_cons.mpr
      ⟨here, fun other member => Nat.lt_trans here (later other member)⟩
  · exact List.forall_mem_cons.mpr ⟨small, hands.small⟩
  · intro whole
    have complete := hands.complete whole
    rw [decoded, layout] at complete
    rw [List.length_cons]
    omega

theorem next_failed (reader : Reader) : (⟨reader, .failed⟩ : Walk).Ended := rfl

theorem next_error {after : Reader} {cause : Error}
    (failed : Reader.advance reader = .error cause after) :
    (⟨reader, .underWay⟩ : Walk).next = (some (.error cause), ⟨after, .failed⟩) := by
  simp only [next, failed]

/-- A walk under way hands out the postings that are left, or those up to a failure. -/
theorem take_settled {limit : Nat} (found : Array (Except Error Posting))
    (settled : reader.Settled) (reads : reader.withExtents = true)
    (enough : reader.layout.summary.docs - reader.decoded + 1 < limit) :
    ∃ postings failure after, (⟨reader, .underWay⟩ : Walk).take limit found =
        (found.toList ++ (postings.map .ok ++ failure.toList.map .error), after) ∧
      after.Ended ∧ Hands reader postings failure := by
  induction limit generalizing reader found with
  | zero => exact absurd enough (Nat.not_lt_zero _)
  | succ limit induction =>
      cases run : Reader.advance reader with
      | error cause after =>
          have corrupt := (Reader.advance_ends settled.coherent.founded).of_error run
          obtain ⟨limit, rfl⟩ := Nat.exists_eq_succ_of_ne_zero (by omega : limit ≠ 0)
          refine ⟨[], some cause, ⟨after, .failed⟩, ?_, next_failed after, ?_⟩
          · rw [take_succ_some (next_error run), take_succ_none (next_failed after)]
            simp
          · exact .failed corrupt
      | ok _ middle =>
          obtain ⟨settledMiddle, stays, advanced⟩ := settled.advanced run
          cases advanced with
          | ended last =>
              have next := next_underWay run (rfl : _ = none)
              refine ⟨[], none, ⟨reader.exhaust, .underWay⟩, ?_, ?_, ?_⟩
              · rw [take_succ_none next]
                simp
              · exact next_underWay (settledMiddle.ended rfl).2 (rfl : _ = none)
              · exact .none last
          | @posting _ doc shown base decoded above small =>
              have posting : middle.posting? = some ⟨doc, middle.count, middle.extents⟩ := by
                rw [Reader.posting?, shown]
                rfl
              obtain ⟨wellFormed, small⟩ :=
                settledMiddle.wellFormed (stays.withExtents.trans reads) posting
              have bound := settledMiddle.coherent.decoded
              obtain ⟨postings, failure, after, taken, ended, hands⟩ :=
                induction (found.push (.ok ⟨doc, middle.count, middle.extents⟩)) settledMiddle
                  (stays.withExtents.trans reads) (by rw [stays.layout] at bound ⊢; omega)
              refine ⟨_ :: postings, failure, after, ?_, ended,
                hands.cons stays.layout shown decoded ?_ wellFormed small⟩
              · rw [take_succ_some (next_underWay run posting), taken]
                simp
              · exact fun old left => above old (settled.base old left)

theorem open?_error {bytes : List UInt8} {cause : Error}
    (refused : Reader.open? bytes true = .error cause) : open? bytes = .error cause := by
  unfold open?
  rw [refused]
  rfl

/-- A parsed block is corrupt in front of its first posting, or it is walked over to the end. -/
theorem open?_parsed {bytes : List UInt8} {layout : Layout}
    (parsed : Layout.parse bytes = .ok layout) :
    (∃ cause, open? bytes = .error cause ∧ cause.kind = .corruptIndex) ∨
    ∃ walk postings failure, open? bytes = .ok walk ∧
      walk.toList.1 = postings.map .ok ++ failure.toList.map .error ∧ walk.toList.2.Ended ∧
      Hands (Reader.atStart layout true) postings failure := by
  rcases Reader.open?_settled parsed true with
    ⟨cause, refused, kind⟩ | ⟨reader, opened, settled, stays, decoded⟩
  · exact .inl ⟨cause, open?_error refused, kind⟩
  refine .inr ?_
  have docs : reader.layout.summary.docs = layout.summary.docs :=
    congrArg (fun layout : Layout => layout.summary.docs) stays.layout
  cases shown : reader.current with
  | none =>
      have done := Reader.isDone_eq_true shown
      obtain ⟨last, advanced⟩ := settled.ended done
      have hidden : reader.posting? = none := by rw [Reader.posting?, shown]; rfl
      have next : (⟨reader, .fresh⟩ : Walk).next = (none, ⟨reader, .underWay⟩) := by
        simp only [Walk.next, hidden, Option.map_none]
      have handed : (⟨reader, .fresh⟩ : Walk).toList = ([], ⟨reader, .underWay⟩) :=
        take_succ_none next
      refine ⟨⟨reader, .fresh⟩, [], none, open?_of_reader opened, by rw [handed]; rfl, ?_, ?_⟩
      · rw [handed]
        exact next_underWay advanced hidden
      · rw [done, if_pos rfl] at decoded
        exact .none (decoded.symm.trans (last.trans docs))
  | some doc =>
      have running := Reader.isDone_eq_false shown
      rw [running, if_neg Bool.false_ne_true] at decoded
      have bound := settled.coherent.decoded
      have posting : reader.posting? = some ⟨doc, reader.count, reader.extents⟩ := by
        rw [Reader.posting?, shown]
        rfl
      obtain ⟨wellFormed, small⟩ := settled.wellFormed stays.withExtents posting
      have next : (⟨reader, .fresh⟩ : Walk).next =
          (some (.ok ⟨doc, reader.count, reader.extents⟩), ⟨reader, .underWay⟩) := by
        simp only [Walk.next, posting, Option.map_some]
      obtain ⟨postings, failure, after, taken, ended, hands⟩ :=
        @take_settled _ (reader.summary.docs + 1) #[.ok ⟨doc, reader.count, reader.extents⟩]
          settled stays.withExtents (by rw [Reader.summary]; omega)
      have handed : (⟨reader, .fresh⟩ : Walk).toList =
          (((⟨doc, reader.count, reader.extents⟩ : Posting) :: postings).map .ok ++
            failure.toList.map .error, after) := by
        unfold toList
        rw [take_succ_some next]
        exact taken
      refine ⟨⟨reader, .fresh⟩, _ :: postings, failure, open?_of_reader opened,
        by rw [handed], by rw [handed]; exact ended, ?_⟩
      have first : ∀ old, (Reader.atStart layout true).current = some old → old < doc :=
        fun old impossible => absurd impossible.symm (Option.some_ne_none old)
      exact hands.cons stays.layout shown decoded first wellFormed small

end Walk

/-- Encodable postings have a block for any interval, and as far as a machine with addresses of
64 bits holds both they are decoded from it again. -/
theorem Encodable.roundTrip {postings : List Posting} (encodable : Encodable postings)
    (small : ∀ posting ∈ postings, posting.count < 4294967296) (interval : Nat) :
    ∃ block, encode postings interval = .ok block ∧
      (interval < Layout.addressLimit → 40 * postings.length < 9223372036854775808 →
        block.length < 9223372036854775808 →
        ∃ walk, Walk.open? block = .ok walk ∧ walk.toList.1 = postings.map .ok ∧
          walk.toList.2.Ended) := by
  rcases encode_cases postings interval with ⟨done, _⟩ | ⟨_, _, _, outside⟩
  · refine ⟨_, done, fun narrow memory short => ?_⟩
    exact Walk.open?_image (stored_of_addressable ⟨narrow, small, memory⟩ encodable short)
  · exact absurd encodable outside

/-- Whatever bytes are parsed as a block, a walk over them hands out postings that can be encoded,
at most one failure and then nothing more, and without a failure all postings that the block
announces.  A reader of them shows ascending documents as long as its moves end well. -/
theorem decode_any {bytes : List UInt8} {layout : Layout}
    (parsed : Layout.parse bytes = .ok layout) :
    ((∃ cause, Walk.open? bytes = .error cause ∧ cause.kind = .corruptIndex) ∨
      ∃ walk postings failure, Walk.open? bytes = .ok walk ∧
        walk.toList.1 = postings.map .ok ++ (Option.toList failure).map .error ∧
        walk.toList.2.Ended ∧ (∀ cause ∈ failure, cause.kind = .corruptIndex) ∧
        Encodable postings ∧
        (failure = none → postings.length = layout.summary.docs ∧ ∀ interval,
          ∃ block, encode postings interval = .ok block ∧
            (interval < Layout.addressLimit → 40 * postings.length < 9223372036854775808 →
              block.length < 9223372036854775808 →
              ∃ again, Walk.open? block = .ok again ∧ again.toList.1 = postings.map .ok ∧
                again.toList.2.Ended))) ∧
    ∀ withExtents,
      (∃ cause, Reader.open? bytes withExtents = .error cause ∧ cause.kind = .corruptIndex) ∨
      ∃ opened, Reader.open? bytes withExtents = .ok opened ∧
        ∀ moves reached, Reader.Move.runAll moves opened = .ok () reached →
          reached.view.Whole withExtents ∧
          (Reader.documents moves opened).Pairwise (· < ·) ∧
          (Reader.documents moves opened).length ≤ layout.summary.docs ∧
          ∀ move : Reader.Move,
            (∃ cause after, move.run reached = .error cause after ∧
              cause.kind = .corruptIndex) ∨
            ∃ after, move.run reached = .ok () after ∧ move.Leads reached.view after.view := by
  constructor
  · rcases Walk.open?_parsed parsed with
      refused | ⟨walk, postings, failure, opened, handed, ended, hands⟩
    · exact .inl refused
    · refine .inr ⟨walk, postings, failure, opened, handed, ended, hands.corrupt,
        hands.encodable, fun whole => ⟨?_, hands.encodable.roundTrip hands.small⟩⟩
      exact (Nat.zero_add _).symm.trans (hands.complete whole)
  · intro withExtents
    rcases Reader.open?_settled parsed withExtents with
      refused | ⟨opened, isOpened, settled, stays, decoded⟩
    · exact .inl refused
    refine .inr ⟨opened, isOpened, fun moves reached run => ?_⟩
    obtain ⟨settledReached, staysReached⟩ := settled.runAll run
    obtain ⟨ascending, few, none⟩ := settled.documents run
    refine ⟨?_, ascending, ?_, fun move => ?_⟩
    · have whole := settledReached.whole
      rwa [staysReached.withExtents, stays.withExtents] at whole
    · cases done : opened.isDone with
      | true =>
          rw [none done]
          exact Nat.zero_le _
      | false =>
          have bound := few done
          rw [decoded, done, if_neg Bool.false_ne_true, stays.layout] at bound
          exact Nat.le_of_succ_le_succ bound
    · cases moved : move.run reached with
      | ok _ after => exact .inr ⟨after, rfl, settledReached.leads moved⟩
      | error cause after => exact .inl ⟨cause, after, rfl, settledReached.error_kind moved⟩

/-- The postings of the documents 1, 5 and 10, with skip entries that lie about the documents in
front of their groups. -/
def misleading : List UInt8 :=
  [3, 3, 1, 1, 2, 8, 3, 3, 6,
   2, 1, 1, 2, 5, 1, 1, 2,
   1, 4, 5,
   1, 1, 1,
   0, 1, 0, 1, 0, 1]

/-- All three postings are decoded, and a skip ends in a document that was never written. -/
theorem decode_any_misleading :
    let written : List Posting :=
      [⟨.ofNat 1, 1, [.ofNats 0 1]⟩, ⟨.ofNat 5, 1, [.ofNats 0 1]⟩, ⟨.ofNat 10, 1, [.ofNats 0 1]⟩]
    let moves : List Reader.Move := [.skipTo (.ofNat 3), .advance]
    ∃ layout, Layout.parse misleading = .ok layout ∧
      (∃ walk block again, Walk.open? misleading = .ok walk ∧
        walk.toList.1 = written.map .ok ∧ encode written 1 = .ok block ∧
        Walk.open? block = .ok again ∧ again.toList.1 = written.map .ok) ∧
      ∃ opened reached, Reader.open? misleading true = .ok opened ∧
        Reader.Move.runAll moves opened = .ok () reached ∧
        Reader.documents moves opened = [.ofNat 1, .ofNat 6, .ofNat 11] ∧
        (Reader.documents moves opened).length ≤ layout.summary.docs ∧
        reached.view.Whole true := by
  intro written moves
  have parses : (Layout.parse misleading).isOk = true := by rfl
  cases parsed : Layout.parse misleading with
  | error cause => simp [parsed, Except.isOk, Except.toBool] at parses
  | ok layout =>
      obtain ⟨walks, reads⟩ := decode_any parsed
      refine ⟨layout, rfl, ?_, ?_⟩
      · have whole : (Walk.open? misleading).toOption.map (fun walk => walk.toList.1) =
            some (written.map .ok) := by rfl
        rcases walks with ⟨cause, refused, _⟩ | ⟨walk, postings, failure, opened, handed, _, _, _,
          complete⟩
        · simp [refused, Except.toOption] at whole
        · rw [opened] at whole
          have same := handed.symm.trans (Option.some.inj whole)
          cases failure with
          | some cause =>
              have member : (.error cause : Except Error Posting) ∈ written.map .ok :=
                same ▸ List.mem_append_right _ List.mem_cons_self
              obtain ⟨_, _, impossible⟩ := List.mem_map.mp member
              cases impossible
          | none =>
              rw [Option.toList_none, List.map_nil, List.append_nil] at same
              obtain rfl := (List.map_inj_right fun _ _ => Except.ok.inj).mp same
              obtain ⟨block, encoded, again⟩ := (complete rfl).2 1
              have length : (encode written 1).toOption.map List.length = some 29 := by
                subst written
                cbv
              rw [encoded] at length
              have short : block.length = 29 := Option.some.inj length
              obtain ⟨other, reopened, handedAgain, _⟩ :=
                again (by decide) (by decide) (by rw [short]; decide)
              exact ⟨walk, block, other, opened, Option.some.inj whole, encoded, reopened,
                handedAgain⟩
      · have runs : (Reader.open? misleading true).toOption.map (fun opened =>
            ((Reader.Move.runAll moves).evaluate opened).isOk &&
              Reader.documents moves opened == [.ofNat 1, .ofNat 6, .ofNat 11]) = some true := by
          rfl
        rcases reads true with ⟨cause, refused, _⟩ | ⟨opened, isOpened, after⟩
        · simp [refused, Except.toOption] at runs
        · rw [isOpened] at runs
          obtain ⟨run, shown⟩ := Bool.and_eq_true_iff.mp (Option.some.inj runs)
          cases ran : Reader.Move.runAll moves opened with
          | error cause left => simp [Step.evaluate, ran, Except.isOk, Except.toBool] at run
          | ok _ reached =>
              obtain ⟨view, _, few, _⟩ := after moves reached ran
              exact ⟨opened, reached, isOpened, ran, eq_of_beq shown, few, view⟩

end Block

end Concordance
