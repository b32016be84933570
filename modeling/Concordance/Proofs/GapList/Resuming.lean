import Concordance.Proofs.GapList
import Concordance.Proofs.Varint.Format

/-!
# Lists of gaps read from any point

Exactly the strictly increasing lists are written, and they are read back from any member on by a
reader that knows the one before.  Whatever bytes are read as a list, the list is strictly
increasing, and its own bytes are not more.  A member that does not lie above the last one changes
nothing.
-/

namespace Concordance

namespace GapList

variable {known : Option DocId} {doc : DocId} {docs front back : List DocId}
  {bytes rest : List UInt8} {limit : Nat} {cause : Error}

/-- Strictly increasing members behind a known one. -/
structure Rises (known : Option DocId) (docs : List DocId) : Prop where
  above : ∀ last, known = some last → ∀ doc ∈ docs, last < doc
  ascending : docs.Pairwise (· < ·)

theorem rises_nil (known : Option DocId) : Rises known [] :=
  ⟨fun _ _ _ impossible => (nomatch impossible), .nil⟩

theorem rises_none : Rises none docs ↔ docs.Pairwise (· < ·) :=
  ⟨Rises.ascending, fun ascending => ⟨fun _ impossible => (nomatch impossible), ascending⟩⟩

theorem rises_cons : Rises known (doc :: docs) ↔
    (∀ last, known = some last → last < doc) ∧ Rises (some doc) docs := by
  constructor
  · rintro ⟨above, ascending⟩
    obtain ⟨behind, later⟩ := List.pairwise_cons.mp ascending
    refine ⟨fun last same => above last same doc List.mem_cons_self, ?_, later⟩
    rintro _ ⟨⟩
    exact behind
  · rintro ⟨here, above, ascending⟩
    have behind := above doc rfl
    refine ⟨fun last same other member => ?_, List.pairwise_cons.mpr ⟨behind, ascending⟩⟩
    rcases List.mem_cons.mp member with rfl | member
    · exact here last same
    · exact Nat.lt_trans (here last same) (behind other member)

theorem rises_append : Rises known (front ++ back) ↔
    Rises known front ∧ Rises (lastFrom known front) back := by
  induction front generalizing known with
  | nil => exact ⟨fun rises => ⟨rises_nil known, rises⟩, And.right⟩
  | cons doc front induction =>
      rw [List.cons_append, rises_cons, rises_cons, induction, lastFrom_cons, and_assoc]

/-! ## Writing -/

theorem push_cases (writer : GapWriter) (doc : DocId) :
    ((∀ last, writer.last = some last → last < doc) ∧
      writer.push doc = .ok ⟨some doc, writer.bytes ++ Varint.encode (gap writer.last doc)⟩) ∨
    ¬(∀ last, writer.last = some last → last < doc) ∧
      ∃ cause, writer.push doc = .error cause ∧ cause.kind = .invalidArgument := by
  by_cases above : ∀ last, writer.last = some last → last < doc
  · exact .inl ⟨above, push_above writer above⟩
  · refine .inr ⟨above, ?_⟩
    obtain ⟨last, outside⟩ := not_forall.mp above
    obtain ⟨same, behind⟩ := Classical.not_imp.mp outside
    refine ⟨.notIncreasing doc last, ?_, rfl⟩
    unfold GapWriter.push
    rw [same]
    exact if_neg behind

/-- Members are written one after the other, or one of them is refused. -/
theorem foldlM_push_cases (writer : GapWriter) (docs : List DocId) :
    (docs.foldlM GapWriter.push writer =
        .ok ⟨lastFrom writer.last docs, writer.bytes ++ bytesFrom writer.last docs⟩ ∧
      Rises writer.last docs) ∨
    ∃ cause, docs.foldlM GapWriter.push writer = .error cause ∧ cause.kind = .invalidArgument ∧
      ¬Rises writer.last docs := by
  induction docs generalizing writer with
  | nil => exact .inl ⟨by simp [bytesFrom, pure, Except.pure], rises_nil _⟩
  | cons doc docs induction =>
      rw [List.foldlM_cons]
      rcases push_cases writer doc with ⟨above, pushed⟩ | ⟨outside, cause, refused, kind⟩
      · rw [pushed, Step.ok_bind]
        rcases induction ⟨some doc, writer.bytes ++ Varint.encode (gap writer.last doc)⟩ with
          ⟨taken, rises⟩ | ⟨cause, refused, kind, outside⟩
        · refine .inl ⟨?_, rises_cons.mpr ⟨above, rises⟩⟩
          have joined : writer.bytes ++ Varint.encode (gap writer.last doc) ++
              bytesFrom (some doc) docs = writer.bytes ++ bytesFrom writer.last (doc :: docs) := by
            apply Array.toList_inj.mp
            simp [bytesFrom]
          rw [taken, lastFrom_cons, ← joined]
        · exact .inr ⟨cause, refused, kind, fun rises => outside (rises_cons.mp rises).2⟩
      · rw [refused]
        exact .inr ⟨cause, rfl, kind, fun rises => outside (rises_cons.mp rises).1⟩

/-- A strictly increasing list has its bytes, and any other list is refused as an argument. -/
theorem encode_cases (docs : List DocId) :
    (encode docs = .ok (bytesFrom none docs) ∧ docs.Pairwise (· < ·)) ∨
    ∃ cause, encode docs = .error cause ∧ cause.kind = .invalidArgument ∧
      ¬docs.Pairwise (· < ·) := by
  rw [← rises_none]
  unfold encode
  rcases foldlM_push_cases GapWriter.empty docs with
    ⟨taken, rises⟩ | ⟨cause, refused, kind, outside⟩
  · rw [taken]
    exact .inl ⟨by simp [GapWriter.empty, bind, Except.bind, pure, Except.pure], rises⟩
  · rw [refused]
    exact .inr ⟨cause, rfl, kind, outside⟩

theorem encode_ascending (ascending : docs.Pairwise (· < ·)) :
    encode docs = .ok (bytesFrom none docs) := by
  rcases encode_cases docs with ⟨done, _⟩ | ⟨_, _, _, outside⟩
  · exact done
  · exact absurd ascending outside

/-! ## Reading what was written -/

theorem readAll_nil (limit : Nat) (known : Option DocId) : readAll limit known [] = .ok [] [] := by
  cases limit <;> rfl

theorem readAll_cons (occupied : bytes ≠ []) (read : readNext known bytes = .ok doc rest) :
    readAll (limit + 1) known bytes =
      (do let later ← readAll limit (some doc); pure (doc :: later) : Step _ _) rest := by
  have more : bytes.isEmpty = false := by simpa using occupied
  rw [readAll, Step.bind_ok _ (Step.get_run bytes), more, if_neg Bool.false_ne_true,
    Step.bind_ok _ read]

/-- Members that rise behind a known one are read back from their bytes. -/
theorem readAll_bytes (rises : Rises known docs) (enough : docs.length ≤ limit) :
    readAll limit known (bytesFrom known docs) = .ok docs [] := by
  induction docs generalizing known limit with
  | nil => exact readAll_nil limit known
  | cons doc docs induction =>
      obtain ⟨above, later⟩ := rises_cons.mp rises
      obtain ⟨limit, rfl⟩ := Nat.exists_eq_succ_of_ne_zero (Nat.ne_of_gt (Nat.zero_lt_of_lt enough))
      have occupied : Varint.encode (gap known doc) ++ bytesFrom (some doc) docs ≠ [] := by
        simp [Varint.encode_ne_nil]
      rw [bytesFrom, readAll_cons occupied (readNext_bytes _ above),
        Step.bind_ok _ (induction later (Nat.le_of_succ_le_succ enough))]
      rfl

theorem decode_bytes (ascending : docs.Pairwise (· < ·)) :
    decode (bytesFrom none docs) = .ok docs :=
  Step.evaluate_ok
    (readAll_bytes (rises_none.mpr ascending) (length_le_length_bytesFrom none docs))

/-- Read so many members at a position of some bytes, behind a known one. -/
def resume (bytes : List UInt8) : Nat → Option DocId → Step Nat (List DocId)
  | 0, _ => pure []
  | count + 1, known => do
    let doc ← Varint.readingAt (readNext known) bytes
    let later ← resume bytes count (some doc)
    pure (doc :: later)

/-- Reading behind a known member goes on at any position where the gap from it stands. -/
theorem resume_bytes (lead rest : List UInt8) (rises : Rises known docs) :
    resume (lead ++ (bytesFrom known docs ++ rest)) docs.length known lead.length =
      .ok docs (lead ++ bytesFrom known docs).length := by
  induction docs generalizing known lead with
  | nil => simp [resume, bytesFrom]
  | cons doc docs induction =>
      obtain ⟨above, later⟩ := rises_cons.mp rises
      have read : Varint.readingAt (readNext known)
          (lead ++ (Varint.encode (gap known doc) ++ (bytesFrom (some doc) docs ++ rest)))
          lead.length = .ok doc (lead ++ Varint.encode (gap known doc)).length := by
        unfold Varint.readingAt
        rw [List.drop_left]
        simp only [readNext_bytes _ above, List.length_append, Nat.add_sub_cancel]
      have others := induction (lead ++ Varint.encode (gap known doc)) later
      rw [List.append_assoc] at others
      rw [bytesFrom, List.append_assoc, List.length_cons, resume, Step.bind_ok _ read,
        Step.bind_ok _ others]
      simp

/-! ## Reading any bytes -/

/-- The member that a gap leads to lies that far behind the one before it. -/
theorem member_eq_ok {number : Nat} (found : member known number = .ok doc) :
    gap known doc = number ∧ ∀ last, known = some last → last < doc := by
  cases known with
  | none =>
      rw [member] at found
      cases placed : DocId.ofNat? number with
      | none =>
          rw [placed] at found
          cases found
      | some other =>
          rw [placed] at found
          cases found
          refine ⟨DocId.ofNat?_eq_some.mp placed, fun _ impossible => ?_⟩
          cases impossible
  | some last =>
      rw [member] at found
      split at found
      · cases found
      · rename_i positive
        cases placed : DocId.ofNat? (last.val + number) with
        | none =>
            rw [placed] at found
            cases found
        | some other =>
            rw [placed] at found
            cases found
            have sum := DocId.ofNat?_eq_some.mp placed
            refine ⟨by simp only [gap]; omega, ?_⟩
            rintro _ ⟨⟩
            rw [DocId.lt_iff]
            omega

theorem readNext_eq_ok (read : readNext known bytes = .ok doc rest) :
    Varint.take64 bytes = .ok (gap known doc, rest) ∧ ∀ last, known = some last → last < doc := by
  obtain ⟨number, middle, taken, placed⟩ := Step.bind_eq_ok read
  obtain ⟨found, rfl⟩ := Step.ofExcept_eq_ok placed
  obtain ⟨rfl, above⟩ := member_eq_ok found
  exact ⟨(Varint.read64_ends bytes).of_ok taken, above⟩

/-- What is read of any bytes rises, leaves nothing unread, and takes no more bytes when it is
written again. -/
theorem readAll_eq_ok (read : readAll limit known bytes = .ok docs rest)
    (enough : bytes.length ≤ limit) :
    Rises known docs ∧ rest = [] ∧ (bytesFrom known docs).length ≤ bytes.length := by
  induction limit generalizing known bytes docs with
  | zero =>
      cases read
      exact ⟨rises_nil known, List.length_eq_zero_iff.mp (Nat.le_zero.mp enough), Nat.zero_le _⟩
  | succ limit induction =>
      by_cases empty : bytes = []
      · subst empty
        rw [readAll_nil] at read
        cases read
        exact ⟨rises_nil known, rfl, Nat.zero_le _⟩
      · have more : bytes.isEmpty = false := by simpa using empty
        rw [readAll, Step.bind_ok _ (Step.get_run bytes), more, if_neg Bool.false_ne_true] at read
        obtain ⟨doc, middle, first, read⟩ := Step.bind_eq_ok read
        obtain ⟨later, final, others, same⟩ := Step.bind_eq_ok read
        cases same
        obtain ⟨taken, above⟩ := readNext_eq_ok first
        have shorter := (Varint.take64_ok taken).2.1
        have short := Varint.length_encode_of_take taken
        obtain ⟨rises, spent, bound⟩ := induction others (by omega)
        refine ⟨rises_cons.mpr ⟨above, rises⟩, spent, ?_⟩
        rw [bytesFrom, List.length_append]
        omega

theorem decode_eq_ok (decoded : decode bytes = .ok docs) :
    docs.Pairwise (· < ·) ∧ (bytesFrom none docs).length ≤ bytes.length := by
  obtain ⟨rest, read⟩ := Step.evaluate_eq_ok decoded
  obtain ⟨rises, _, bound⟩ := readAll_eq_ok read (Nat.le_refl _)
  exact ⟨rises.ascending, bound⟩

end GapList

/-! ## Members that are refused -/

namespace GapWriter

/-- The number that is written for a member behind the last one. -/
def gapTo (last : Option DocId) (doc : DocId) : Except Error Nat :=
  match last with
  | none => .ok doc.val
  | some last => if last < doc then .ok (doc.val - last.val) else .error (.notIncreasing doc last)

/-- Add a member in place: its bytes first, then it is the last one. -/
def extend (doc : DocId) : Step GapWriter Unit := do
  let number ← Step.ofExcept (gapTo (← get).last doc)
  modify fun writer => { writer with bytes := writer.bytes ++ Varint.encode number }
  modify fun writer => { writer with last := some doc }

/-- Adding in place ends like adding to a copy. -/
theorem extend_eq_push (writer : GapWriter) (doc : DocId) :
    extend doc writer =
      match writer.push doc with
      | .ok after => .ok () after
      | .error cause => .error cause writer := by
  unfold extend push
  rw [Step.bind_ok _ (Step.get_run writer), Step.bind_run]
  cases writer.last with
  | none => rfl
  | some last =>
      by_cases above : last < doc
      · simp only [gapTo, if_pos above]
        rfl
      · simp only [gapTo, if_neg above]
        rfl

/-- A member above the last one is written, and any other one is refused and leaves the writer as
it is. -/
theorem extend_cases (writer : GapWriter) (doc : DocId) :
    ((∀ last, writer.last = some last → last < doc) ∧
      extend doc writer =
        .ok () ⟨some doc, writer.bytes ++ Varint.encode (GapList.gap writer.last doc)⟩) ∨
    ¬(∀ last, writer.last = some last → last < doc) ∧
      ∃ cause, extend doc writer = .error cause writer ∧ cause.kind = .invalidArgument := by
  rw [extend_eq_push]
  rcases GapList.push_cases writer doc with ⟨above, pushed⟩ | ⟨outside, cause, refused, kind⟩
  · rw [pushed]
    exact .inl ⟨above, rfl⟩
  · rw [refused]
    exact .inr ⟨outside, cause, rfl, kind⟩

/-- Offer members one after the other, whatever becomes of each: those that were written, and the
writer that is left. -/
def offerAll : List DocId → GapWriter → List DocId × GapWriter
  | [], writer => ([], writer)
  | doc :: docs, writer =>
    match extend doc writer with
    | .ok _ after => (doc :: (offerAll docs after).1, (offerAll docs after).2)
    | .error _ after => offerAll docs after

/-- The writer that is left is the one that was offered only what it has written. -/
theorem offerAll_written (docs : List DocId) (writer : GapWriter) :
    (offerAll docs writer).1.foldlM push writer = .ok (offerAll docs writer).2 := by
  induction docs generalizing writer with
  | nil => rfl
  | cons doc docs induction =>
      rw [offerAll, extend_eq_push]
      cases pushed : writer.push doc with
      | ok after =>
          dsimp only
          rw [List.foldlM_cons, pushed, Step.ok_bind, induction]
      | error cause => exact induction writer

end GapWriter

namespace GapList

/-- A list that is cut into three is read from the start of the middle to its end. -/
theorem resume_middle {middle : List DocId}
    (ascending : (front ++ (middle ++ back)).Pairwise (· < ·)) :
    ∃ lead part rest, encode front = .ok lead ∧ encode (front ++ middle) = .ok (lead ++ part) ∧
      bytesFrom none (front ++ (middle ++ back)) = lead ++ (part ++ rest) ∧
      resume (lead ++ (part ++ rest)) middle.length front.getLast? lead.length =
        .ok middle (lead ++ part).length := by
  have base : lastFrom none front = front.getLast? := by simp [lastFrom]
  have through : (front ++ middle).Pairwise (· < ·) := by
    rw [← List.append_assoc] at ascending
    exact (List.pairwise_append.mp ascending).1
  have begun := (List.pairwise_append.mp through).1
  have rises := (rises_append.mp (rises_none.mpr through)).2
  rw [base] at rises
  refine ⟨bytesFrom none front, bytesFrom front.getLast? middle,
    bytesFrom (lastFrom front.getLast? middle) back, encode_ascending begun, ?_, ?_,
    resume_bytes _ _ rises⟩
  · rw [encode_ascending through, bytesFrom_append, base]
  · rw [bytesFrom_append, bytesFrom_append, base]

theorem offerAll_encode (offers : List DocId) :
    encode (GapWriter.offerAll offers GapWriter.empty).1 =
      .ok (GapWriter.offerAll offers GapWriter.empty).2.bytes.toList := by
  unfold encode
  rw [GapWriter.offerAll_written, Step.ok_bind]
  rfl

theorem offerAll_last (offers : List DocId) :
    (GapWriter.offerAll offers GapWriter.empty).2.last =
      (GapWriter.offerAll offers GapWriter.empty).1.getLast? := by
  have written := GapWriter.offerAll_written offers GapWriter.empty
  rcases foldlM_push_cases GapWriter.empty (GapWriter.offerAll offers GapWriter.empty).1 with
    ⟨taken, _⟩ | ⟨cause, refused, _⟩
  · rw [written] at taken
    rw [Except.ok.inj taken]
    simp [lastFrom, GapWriter.empty]
  · rw [written] at refused
    cases refused

/-- Exactly the strictly increasing lists are written, any other one being refused as an argument,
and they are read back.  Cut into three anywhere, the middle is read where its bytes begin by a
reader that knows the last member in front of it, and the reading ends where the bytes of the back
begin.  What is read of any bytes is strictly increasing, and its own bytes are not more and are
read as the same list.  A member is refused if it does not lie above the last one; the writer is as
before then, and what it holds in the end are the bytes of the members that were written. -/
theorem encode_resumes :
    (∀ docs, (∃ bytes, encode docs = .ok bytes) ↔ docs.Pairwise (· < ·)) ∧
    (∀ docs cause, encode docs = .error cause → cause.kind = .invalidArgument) ∧
    (∀ docs bytes, encode docs = .ok bytes → decode bytes = .ok docs ∧
      ∀ front middle back, docs = front ++ (middle ++ back) → ∃ lead part rest,
        encode front = .ok lead ∧ encode (front ++ middle) = .ok (lead ++ part) ∧
        bytes = lead ++ (part ++ rest) ∧
        resume bytes middle.length front.getLast? lead.length = .ok middle (lead ++ part).length) ∧
    (∀ bytes docs, decode bytes = .ok docs → docs.Pairwise (· < ·) ∧
      ∃ again, encode docs = .ok again ∧ decode again = .ok docs ∧ again.length ≤ bytes.length) ∧
    (∀ (writer : GapWriter) doc, GapWriter.extend doc writer =
      match writer.push doc with
      | .ok after => .ok () after
      | .error cause => .error cause writer) ∧
    (∀ (writer after : GapWriter) doc cause, GapWriter.extend doc writer = .error cause after →
      after = writer ∧ cause.kind = .invalidArgument) ∧
    ∀ offers,
      let written := (GapWriter.offerAll offers GapWriter.empty).1
      let writer := (GapWriter.offerAll offers GapWriter.empty).2
      encode written = .ok writer.bytes.toList ∧
      ∀ doc, (∃ after, GapWriter.extend doc writer = .ok () after) ↔
        ∀ last ∈ written.getLast?, last < doc := by
  refine ⟨fun docs => ?_, fun docs cause refused => ?_, fun docs bytes encoded => ?_,
    fun bytes docs decoded => ?_, GapWriter.extend_eq_push,
    fun writer after doc cause refused => ?_,
    fun offers => ⟨offerAll_encode offers, fun doc => ?_⟩⟩
  · rcases encode_cases docs with ⟨done, ascending⟩ | ⟨cause, refused, _, outside⟩
    · exact ⟨fun _ => ascending, fun _ => ⟨_, done⟩⟩
    · refine ⟨?_, fun ascending => absurd ascending outside⟩
      rintro ⟨bytes, same⟩
      rw [refused] at same
      cases same
  · rcases encode_cases docs with ⟨done, _⟩ | ⟨other, same, kind, _⟩
    · rw [done] at refused
      cases refused
    · rw [same] at refused
      cases refused
      exact kind
  · rcases encode_cases docs with ⟨done, ascending⟩ | ⟨cause, refused, _⟩
    · cases done.symm.trans encoded
      refine ⟨decode_bytes ascending, ?_⟩
      rintro front middle back rfl
      obtain ⟨lead, part, rest, begun, through, whole, read⟩ := resume_middle ascending
      exact ⟨lead, part, rest, begun, through, whole, by rw [whole, read]⟩
    · cases refused.symm.trans encoded
  · obtain ⟨ascending, bound⟩ := decode_eq_ok decoded
    exact ⟨ascending, _, encode_ascending ascending, decode_bytes ascending, bound⟩
  · rcases GapWriter.extend_cases writer doc with ⟨_, run⟩ | ⟨_, other, run, kind⟩
    · cases run.symm.trans refused
    · cases run.symm.trans refused
      exact ⟨rfl, kind⟩
  · rw [← offerAll_last]
    rcases GapWriter.extend_cases (GapWriter.offerAll offers GapWriter.empty).2 doc with
      ⟨above, run⟩ | ⟨outside, cause, run, _⟩
    · exact ⟨fun _ => above, fun _ => ⟨_, run⟩⟩
    · refine ⟨?_, fun above => absurd above outside⟩
      rintro ⟨after, same⟩
      cases run.symm.trans same

/-- The least and the greatest member, a cut behind the least one, a list that is read from more
bytes than it is written in, and a member that is offered twice. -/
theorem encode_resumes_extremes :
    let docs : List DocId := [.zero, .ofNat 300, .top]
    let padded : List UInt8 := [128, 0, 172, 130, 0]
    let once : GapWriter := ⟨some (.ofNat 300), #[172, 2]⟩
    ∃ bytes, encode docs = .ok bytes ∧ decode bytes = .ok docs ∧
      (∃ lead part, encode [.zero] = .ok lead ∧ bytes = lead ++ part ∧
        resume bytes 2 (some .zero) lead.length = .ok [.ofNat 300, .top] bytes.length) ∧
      decode padded = .ok [.zero, .ofNat 300] ∧
      (∃ again, encode [.zero, .ofNat 300] = .ok again ∧ decode again = .ok [.zero, .ofNat 300] ∧
        again.length ≤ 5) ∧
      GapWriter.extend (.ofNat 300) once =
        .error (.notIncreasing (.ofNat 300) (.ofNat 300)) once ∧
      Error.kind (.notIncreasing (.ofNat 300) (.ofNat 300)) = .invalidArgument := by
  intro docs padded once
  obtain ⟨accepts, _, reads, any, _, refuses, _⟩ := encode_resumes
  obtain ⟨bytes, encoded⟩ := (accepts docs).mpr (by decide)
  obtain ⟨decoded, cuts⟩ := reads docs bytes encoded
  obtain ⟨lead, part, rest, begun, through, whole, read⟩ :=
    cuts [.zero] [.ofNat 300, .top] [] rfl
  have all : bytes = lead ++ part := Except.ok.inj (encoded.symm.trans through)
  have foreign : decode padded = .ok [.zero, .ofNat 300] := by decide
  have refused : GapWriter.extend (.ofNat 300) once =
      .error (.notIncreasing (.ofNat 300) (.ofNat 300)) once := by rfl
  rw [← all] at read
  exact ⟨bytes, encoded, decoded, ⟨lead, part, begun, all, read⟩, foreign,
    (any padded _ foreign).2, refused, (refuses once once _ _ refused).2⟩

end GapList

end Concordance
