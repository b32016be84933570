import Concordance.Proofs.Block.Counting
import Concordance.Proofs.Block.Trail

/-!
# Readers behind a failure

A reader over a block of any bytes can be called again behind a failure.  An advance that fails
leaves the document and the count of the posting before, and its extents too, unless the next
posting breaks in the middle of its own: those found until then stand in place of the extents
before.  A skip that fails is left where its last advance was made, which may be on a posting
that it passed.  All that a reader shows is a whole posting otherwise, since a call that ends
well decodes one from whatever a failure left.
-/

namespace Concordance

namespace Varint

theorem read32_error {bytes rest : List UInt8} {cause : Error}
    (failed : read32 bytes = .error cause rest) : rest = bytes := by
  unfold read32 reading at failed
  split at failed
  · cases failed
  · cases failed
    rfl

end Varint

namespace Block

namespace Reader

/-! ## An advance that fails -/

/-- Extents that break off use up bytes at most. -/
theorem gather_spares (doc : DocId) (declared missing before : Nat) (gathering : Gathering) :
    (gather doc declared missing before).Spares gathering fun after =>
      after.bytes.length ≤ gathering.bytes.length := by
  have number (gathering : Gathering) : (Gathering.onBytes Varint.read32).Spares gathering
      fun after => after.bytes.length ≤ gathering.bytes.length := by
    cases read : Varint.read32 gathering.bytes with
    | ok value rest => exact Step.spares_done (Step.onPart_ok read)
    | error cause rest =>
        refine Step.spares_failed (Step.onPart_error read) ?_
        rw [Varint.read32_error read]
  induction missing generalizing before gathering with
  | zero => exact Step.spares_done rfl
  | succ missing induction =>
      unfold gather
      apply Step.Spares.behind (Step.get_run gathering)
      by_cases empty : gathering.bytes.isEmpty = true
      · rw [if_pos empty]
        exact Step.spares_failed rfl (Nat.le_refl _)
      · rw [if_neg empty]
        apply (number gathering).bind
        intro gap _ gapRead
        obtain ⟨ahead, taken, rfl⟩ := Step.onPart_eq_ok gapRead
        obtain ⟨_, shorterGap, _⟩ := (Varint.read32_ends gathering.bytes).of_ok taken
        apply ((number _).imp fun after fewer => fewer.trans (Nat.le_of_lt shorterGap)).bind
        intro width _ widthRead
        obtain ⟨rest, taken, rfl⟩ := Step.onPart_eq_ok widthRead
        obtain ⟨_, shorterWidth, _⟩ := (Varint.read32_ends ahead).of_ok taken
        have shorter := Nat.le_of_lt (shorterWidth.trans shorterGap)
        apply Step.Spares.checked
        · exact shorter
        · intro extent _
          exact (induction extent.start ⟨rest, gathering.found.push extent⟩).imp
            fun after fewer => fewer.trans shorter

/-- The document and the count of the next posting can be read, but of its extents only some
until one is missing or broken. -/
structure Breaks (reader : Reader) (found : List Extent) : Prop where
  reads : reader.withExtents = true
  left : reader.decoded ≠ reader.layout.summary.docs
  cut : ∃ doc docBytes count countBytes cause gathering,
    GapList.readNext reader.base reader.docBytes = .ok doc docBytes ∧
    Varint.read32 reader.countBytes = .ok count countBytes ∧ count ≠ 0 ∧
    gather doc count count 0 ⟨reader.extentBytes, #[]⟩ = .error cause gathering ∧
    gathering.found.toList = found

/-- What an advance that fails leaves.  The extents shown are those of before just if the next
posting does not break. -/
structure Halted (reader after : Reader) : Prop where
  stays : Stays reader after
  decoded : after.decoded = reader.decoded
  shorter : after.extentBytes.length ≤ reader.extentBytes.length
  current : after.current = reader.current
  count : after.count = reader.count
  extents : (∃ found, reader.Breaks found ∧ after.extents = found) ∨
    ((∀ found, ¬reader.Breaks found) ∧ after.extents = reader.extents)

/-- A reader behind the document and the count of the next posting. -/
def headed (reader : Reader) (doc : DocId) (docBytes countBytes : List UInt8) : Reader :=
  { reader with docBytes := docBytes, countBytes := countBytes, base := some doc }

/-- What an advance does behind the document and the count of the next posting. -/
def readRest (doc : DocId) (count : Nat) (withExtents : Bool) : Step Reader Unit := do
  if count = 0 then throw (.zeroCount doc)
  if withExtents then readExtents doc count
  modify fun reader =>
    { reader with decoded := reader.decoded + 1, current := some doc, count := count }

variable {reader middle after : Reader} {cause : Error} {doc : DocId} {count : Nat}
  {docBytes countBytes : List UInt8}

theorem advance_headed (left : reader.decoded ≠ reader.layout.summary.docs)
    (read : GapList.readNext reader.base reader.docBytes = .ok doc docBytes)
    (counted : Varint.read32 reader.countBytes = .ok count countBytes) :
    advance reader =
      readRest doc count reader.withExtents (reader.headed doc docBytes countBytes) := by
  have readDoc : onDocs (GapList.readNext reader.base) reader =
      .ok doc { reader with docBytes := docBytes } := Step.onPart_ok read
  have readCount : onCounts Varint.read32 { reader with docBytes := docBytes, base := some doc } =
      .ok count (reader.headed doc docBytes countBytes) := Step.onPart_ok counted
  unfold advance
  rw [Step.bind_ok _ (Step.get_run reader), if_neg left, Step.bind_ok _ readDoc,
    Step.bind_ok _ (Step.modify_run _ _), Step.bind_ok _ readCount]
  rfl

/-- Nothing that is shown changes before the first extent is read. -/
theorem halted_unbroken (unbroken : ∀ found, ¬reader.Breaks found)
    (docBytes countBytes : List UInt8) (base : Option DocId) :
    Halted reader { reader with docBytes := docBytes, countBytes := countBytes, base := base } :=
  ⟨⟨rfl, rfl, rfl⟩, rfl, Nat.le_refl _, rfl, rfl, .inr ⟨unbroken, rfl⟩⟩

/-- Behind the document and the count only the extents of a posting change what is shown. -/
theorem readRest_halts (left : reader.decoded ≠ reader.layout.summary.docs)
    (read : GapList.readNext reader.base reader.docBytes = .ok doc docBytes)
    (counted : Varint.read32 reader.countBytes = .ok count countBytes)
    (failed : readRest doc count reader.withExtents (reader.headed doc docBytes countBytes) =
      .error cause after) : Halted reader after := by
  unfold readRest at failed
  by_cases zero : count = 0
  · rw [if_pos zero] at failed
    cases failed
    refine halted_unbroken ?_ _ _ _
    rintro found ⟨_, _, _, _, _, _, _, _, _, countedToo, nonzero, _⟩
    cases counted.symm.trans countedToo
    exact nonzero zero
  rw [if_neg zero] at failed
  dsimp only at failed
  by_cases reads : reader.withExtents = true
  · rw [if_pos reads] at failed
    cases gathered : gather doc count count 0 ⟨reader.extentBytes, #[]⟩ with
    | error other gathering =>
        have broken : readExtents doc count (reader.headed doc docBytes countBytes) =
            .error other { reader.headed doc docBytes countBytes with
              extentBytes := gathering.bytes
              extents := gathering.found.toList } := Step.onPart_error gathered
        rw [Step.bind_error _ broken] at failed
        cases failed
        refine ⟨⟨rfl, rfl, rfl⟩, rfl, ?_, rfl, rfl, .inl ⟨_, ⟨reads, left, ?_⟩, rfl⟩⟩
        · exact (gather_spares doc count count 0 _).of_error gathered
        · exact ⟨doc, docBytes, count, countBytes, _, gathering, read, counted, zero, gathered,
            rfl⟩
    | ok value gathering =>
        have whole : readExtents doc count (reader.headed doc docBytes countBytes) =
            .ok value { reader.headed doc docBytes countBytes with
              extentBytes := gathering.bytes
              extents := gathering.found.toList } := Step.onPart_ok gathered
        rw [Step.bind_ok _ whole] at failed
        cases failed
  · rw [if_neg reads] at failed
    cases failed

theorem advance_halts (failed : advance reader = .error cause after) : Halted reader after := by
  by_cases last : reader.decoded = reader.layout.summary.docs
  · have unbroken : ∀ found, ¬reader.Breaks found := fun _ breaks => breaks.left last
    unfold advance at failed
    rw [Step.bind_ok _ (Step.get_run reader), if_pos last] at failed
    by_cases trailing : reader.hasTrailingBytes = true
    · rw [if_pos trailing] at failed
      cases failed
      exact halted_unbroken unbroken _ _ _
    · rw [if_neg trailing] at failed
      cases failed
  cases read : GapList.readNext reader.base reader.docBytes with
  | error other rest =>
      have unbroken : ∀ found, ¬reader.Breaks found := by
        rintro found ⟨_, _, _, _, _, _, _, _, readToo, _⟩
        cases read.symm.trans readToo
      have unread : onDocs (GapList.readNext reader.base) reader =
          .error other { reader with docBytes := rest } := Step.onPart_error read
      unfold advance at failed
      rw [Step.bind_ok _ (Step.get_run reader), if_neg last, Step.bind_error _ unread] at failed
      cases failed
      exact halted_unbroken unbroken _ _ _
  | ok doc docBytes =>
      cases counted : Varint.read32 reader.countBytes with
      | error other rest =>
          have unbroken : ∀ found, ¬reader.Breaks found := by
            rintro found ⟨_, _, _, _, _, _, _, _, _, countedToo, _⟩
            cases counted.symm.trans countedToo
          have readDoc : onDocs (GapList.readNext reader.base) reader =
              .ok doc { reader with docBytes := docBytes } := Step.onPart_ok read
          have uncounted : onCounts Varint.read32
              { reader with docBytes := docBytes, base := some doc } =
                .error other (reader.headed doc docBytes rest) := Step.onPart_error counted
          unfold advance at failed
          rw [Step.bind_ok _ (Step.get_run reader), if_neg last, Step.bind_ok _ readDoc,
            Step.bind_ok _ (Step.modify_run _ _), Step.bind_error _ uncounted] at failed
          cases failed
          exact halted_unbroken unbroken _ _ _
      | ok count countBytes =>
          rw [advance_headed last read counted] at failed
          exact readRest_halts last read counted failed

theorem Halted.view (halted : Halted reader after) :
    (∃ found, reader.Breaks found ∧ after.view = { reader.view with extents := found }) ∨
      after.view = reader.view := by
  have shown (extents : List Extent) (same : after.extents = extents) :
      after.view = { reader.view with extents := extents } := by
    simp only [Reader.view, isDone, halted.current, halted.count, same]
  rcases halted.extents with ⟨found, breaks, same⟩ | ⟨_, same⟩
  · exact .inl ⟨found, breaks, shown found same⟩
  · exact .inr (shown _ same)

theorem Founded.halted (founded : reader.Founded) (halted : Halted reader after) :
    after.Founded := by
  obtain ⟨bytes, proper⟩ := founded.proper
  have layout := halted.stays.layout
  refine ⟨⟨bytes, layout ▸ proper⟩, ?_, ?_, ?_⟩
  · rw [halted.stays.groups, founded.groups, layout]
  · rw [layout]
    exact halted.shorter.trans founded.ahead
  · rw [halted.decoded, layout]
    exact founded.decoded

/-! ## Calls -/

/-- An advance that ends well decodes a whole posting or ends the block, wherever the reader was
left before. -/
theorem Founded.advance (founded : reader.Founded) (run : Reader.advance reader = .ok () after) :
    after.Settled ∧ Stays reader after := by
  obtain ⟨coherent, stays, advanced⟩ := (advance_ends founded).of_ok run
  exact ⟨advanced.settled coherent, stays⟩

/-- How advancing to a target ends. -/
inductive Scanned (target : DocId) (reader : Reader) :
    EStateM.Result Error Reader Unit → Prop where
  | stayed : Scanned target reader (.ok () reader)
  | settled {after : Reader} (settled : after.Settled) (stays : Stays reader after) :
      Scanned target reader (.ok () after)
  | broke {before after : Reader} {doc : DocId} {cause : Error}
      (passed : before = reader ∨ before.Settled ∧ Stays reader before)
      (shown : before.current = some doc) (below : doc < target)
      (failed : Reader.advance before = .error cause after) :
      Scanned target reader (.error cause after)

theorem Scanned.behind {target : DocId} {result : EStateM.Result Error Reader Unit}
    (settled : middle.Settled) (stays : Stays reader middle)
    (scanned : Scanned target middle result) : Scanned target reader result := by
  cases scanned with
  | stayed => exact .settled settled stays
  | settled settledAfter staysAfter => exact .settled settledAfter (stays.trans staysAfter)
  | broke passed shown below failed =>
      refine .broke (.inr ?_) shown below failed
      rcases passed with rfl | ⟨settledBefore, staysBefore⟩
      · exact ⟨settled, stays⟩
      · exact ⟨settledBefore, stays.trans staysBefore⟩

theorem advanceTo_scanned (target : DocId) (limit : Nat) (founded : reader.Founded) :
    Scanned target reader (advanceTo target limit reader) := by
  induction limit generalizing reader with
  | zero => exact .stayed
  | succ limit induction =>
      cases shown : reader.current with
      | none =>
          rw [advanceTo_done shown]
          exact .stayed
      | some doc =>
          by_cases below : doc < target
          · rw [advanceTo_below shown below, Step.bind_run]
            cases run : Reader.advance reader with
            | error cause after => exact .broke (.inl rfl) shown below run
            | ok _ middle =>
                obtain ⟨settled, stays⟩ := founded.advance run
                exact (induction settled.coherent.founded).behind settled stays
          · rw [advanceTo_reached shown (DocId.not_lt.mp below)]
            exact .stayed

/-- From where the last advance of a call is made: from where the call finds the reader, from
the start of a group, or from a posting that a skip passes on its way. -/
inductive Call.Approaches (call : Call) (reader : Reader) : Reader → Prop where
  | here : Approaches call reader reader
  | entered {target : DocId} {group : Group} {before : Nat}
      (skips : call = .move (.skipTo target))
      (chosen : reader.groupFor target = some (group, before)) :
      Approaches call reader (reader.enterGroup group before)
  | passed {target doc : DocId} {middle : Reader} (skips : call = .move (.skipTo target))
      (settled : middle.Settled) (stays : Stays reader middle)
      (shown : middle.current = some doc) (below : doc < target) : Approaches call reader middle

/-- How a call ends. -/
inductive Call.Ended (call : Call) (reader : Reader) :
    EStateM.Result Error Reader Unit → Prop where
  | stayed : Ended call reader (.ok () reader)
  | exhausted : Ended call reader (.ok () reader.exhaust)
  | settled {after : Reader} (settled : after.Settled) (stays : Stays reader after) :
      Ended call reader (.ok () after)
  | broke {before after : Reader} {cause : Error} (approaches : call.Approaches reader before)
      (failed : Reader.advance before = .error cause after) :
      Ended call reader (.error cause after)

theorem Scanned.ended {target : DocId} {result : EStateM.Result Error Reader Unit}
    (scanned : Scanned target reader result) :
    Call.Ended (.move (.skipTo target)) reader result := by
  cases scanned with
  | stayed => exact .stayed
  | settled settled stays => exact .settled settled stays
  | broke passed shown below failed =>
      rcases passed with rfl | ⟨settled, stays⟩
      · exact .broke .here failed
      · exact .broke (.passed rfl settled stays shown below) failed

theorem Call.run_ended (founded : reader.Founded) (call : Call) :
    call.Ended reader (call.run reader) := by
  cases call with
  | exhaust => exact .exhausted
  | move move =>
      cases move with
      | advance =>
          change Call.Ended _ reader (Reader.advance reader)
          cases run : Reader.advance reader with
          | error cause after => exact .broke .here run
          | ok _ after =>
              obtain ⟨settled, stays⟩ := founded.advance run
              exact .settled settled stays
      | skipTo target =>
          change Call.Ended _ reader (Reader.skipTo target reader)
          unfold Reader.skipTo
          rw [Step.bind_ok _ (Step.get_run reader)]
          cases shown : reader.current with
          | none => exact .stayed
          | some doc =>
              dsimp only
              by_cases below : doc < target
              · rw [if_pos below]
                cases chosen : reader.groupFor target with
                | none => exact (advanceTo_scanned target _ founded).ended
                | some entry =>
                    obtain ⟨group, before⟩ := entry
                    dsimp only
                    rw [Step.bind_ok _ (Step.set_run _ _), Step.bind_run]
                    have entered := founded.enterGroup chosen
                    cases run : Reader.advance (reader.enterGroup group before) with
                    | error cause after => exact .broke (.entered rfl chosen) run
                    | ok _ middle =>
                        obtain ⟨settled, stays⟩ := entered.advance run
                        have staysToo : Stays reader middle :=
                          ⟨stays.layout, stays.groups, stays.withExtents⟩
                        have scanned := advanceTo_scanned target
                          (reader.layout.summary.docs + 1) settled.coherent.founded
                        exact (scanned.behind settled staysToo).ended
              · rw [if_neg below]
                exact .stayed

theorem Call.Approaches.founded {call : Call} (founded : reader.Founded)
    (approaches : call.Approaches reader middle) : middle.Founded ∧ Stays reader middle := by
  cases approaches with
  | here => exact ⟨founded, .refl reader⟩
  | entered _ chosen => exact ⟨founded.enterGroup chosen, rfl, rfl, rfl⟩
  | passed _ settled stays => exact ⟨settled.coherent.founded, stays⟩

theorem Call.Approaches.view {call : Call} (approaches : call.Approaches reader middle) :
    middle.view = reader.view ∨ middle.view.Whole middle.withExtents := by
  cases approaches with
  | here => exact .inl rfl
  | entered => exact .inl rfl
  | passed _ settled => exact .inr settled.whole

/-! ## Whatever is called -/

/-- The reader that calls leave, whether or not they succeed. -/
def behind (calls : List Call) (reader : Reader) : Reader :=
  calls.foldl (fun reader call => call.run.endState reader) reader

theorem behind_concat (calls : List Call) (call : Call) (reader : Reader) :
    behind (calls ++ [call]) reader = call.run.endState (behind calls reader) :=
  List.foldl_concat ..

theorem Call.founded (call : Call) (founded : reader.Founded) :
    (call.run.endState reader).Founded ∧ Stays reader (call.run.endState reader) := by
  have ended := call.run_ended founded
  unfold Step.endState
  generalize call.run reader = result at ended
  cases ended with
  | stayed => exact ⟨founded, .refl reader⟩
  | exhausted =>
      exact ⟨⟨founded.proper, founded.groups, founded.ahead, founded.decoded⟩, rfl, rfl, rfl⟩
  | settled settled stays => exact ⟨settled.coherent.founded, stays⟩
  | broke approaches failed =>
      obtain ⟨foundedBefore, stays⟩ := approaches.founded founded
      have halted := advance_halts failed
      exact ⟨foundedBefore.halted halted, stays.trans halted.stays⟩

theorem behind_founded (founded : reader.Founded) (calls : List Call) :
    (behind calls reader).Founded ∧ Stays reader (behind calls reader) := by
  induction calls generalizing reader with
  | nil => exact ⟨founded, .refl reader⟩
  | cons call calls induction =>
      obtain ⟨foundedMiddle, stays⟩ := call.founded founded
      obtain ⟨foundedAfter, staysAfter⟩ := induction foundedMiddle
      exact ⟨foundedAfter, stays.trans staysAfter⟩

/-- A call breaks off in the middle of the extents of a posting and leaves them in view beside
the document and the count of another one. -/
def Call.Tears (call : Call) (reader : Reader) : Prop :=
  ∃ cause after before found, call.run reader = .error cause after ∧
    call.Approaches reader before ∧ before.Breaks found ∧
    after.view = { before.view with extents := found }

/-- What a call leaves in view. -/
theorem Call.view_cases (founded : reader.Founded) (reads : reader.withExtents = true)
    (call : Call) : (call.run.endState reader).view = reader.view ∨
      (call.run.endState reader).view.Whole true ∨ call.Tears reader := by
  have ended := call.run_ended founded
  unfold Step.endState Call.Tears
  generalize call.run reader = result at ended
  cases ended with
  | stayed => exact .inl rfl
  | exhausted =>
      exact .inr (.inl ⟨fun running => (nomatch running), fun running => (nomatch running)⟩)
  | settled settled stays =>
      exact .inr (.inl (reads ▸ stays.withExtents ▸ settled.whole))
  | @broke before after cause approaches failed =>
      obtain ⟨_, stays⟩ := approaches.founded founded
      rcases (advance_halts failed).view with ⟨found, breaks, shown⟩ | same
      · exact .inr (.inr ⟨cause, after, before, found, rfl, approaches, breaks, shown⟩)
      · change after.view = _ ∨ after.view.Whole true ∨ _
        rw [same]
        rcases approaches.view with still | whole
        · exact .inl still
        · exact .inr (.inl (reads ▸ stays.withExtents ▸ whole))

/-- A reader shows a whole posting or none, or what the last call that changed its view tore. -/
theorem behind_whole (founded : reader.Founded) (reads : reader.withExtents = true)
    (whole : reader.view.Whole true) (calls : List Call) :
    (behind calls reader).view.Whole true ∨ ∃ front call back, calls = front ++ call :: back ∧
      call.Tears (behind front reader) ∧
      (behind (front ++ [call]) reader).view = (behind calls reader).view := by
  induction calls using List.reverseRecOn with
  | nil => exact .inl whole
  | append_singleton calls call induction =>
      obtain ⟨foundedMiddle, stays⟩ := behind_founded founded calls
      rw [behind_concat]
      rcases call.view_cases foundedMiddle (stays.withExtents.trans reads) with
        same | isWhole | tears
      · rw [same]
        refine induction.imp_right ?_
        rintro ⟨front, torn, back, rfl, tears, shown⟩
        exact ⟨front, torn, back ++ [call], by simp, tears, shown⟩
      · exact .inl isWhole
      · exact .inr ⟨calls, call, [], rfl, tears, congrArg view (behind_concat calls call reader)⟩

theorem settled_of_open? {bytes : List UInt8} {withExtents : Bool} {opened : Reader}
    (known : open? bytes withExtents = .ok opened) :
    opened.Settled ∧ opened.withExtents = withExtents := by
  rcases open?_cases bytes withExtents with ⟨other, same, _, parsed, _⟩ | ⟨_, refused, _⟩
  · rcases open?_settled parsed withExtents with
      ⟨_, refused, _⟩ | ⟨reader, again, settled, stays, _⟩
    · cases known.symm.trans refused
    · cases known.symm.trans again
      exact ⟨settled, stays.withExtents⟩
  · cases known.symm.trans refused

/-- A reader of any block, behind any calls, shows a whole posting or none, unless a call broke
off in the middle of some extents and no later call has changed the view.  A call that ends well
leaves the view as it is, or on a whole posting or none.  A call that fails has found the block
corrupt.  It leaves the document and the count as they were in front of its last advance, and
the extents too if the posting behind does not break.  What was in view in front of the last
advance is what was in view before the call, or for a skip a whole posting below its target. -/
theorem behind_view {bytes : List UInt8} {opened : Reader}
    (known : open? bytes true = .ok opened) (calls : List Call) :
    ((behind calls opened).view.Whole true ∨ ∃ front call back, calls = front ++ call :: back ∧
      call.Tears (behind front opened) ∧
      (behind (front ++ [call]) opened).view = (behind calls opened).view) ∧
    ∀ call : Call,
      (∀ after, call.run (behind calls opened) = .ok () after →
        after.view = (behind calls opened).view ∨ after.view.Whole true) ∧
      ∀ cause after, call.run (behind calls opened) = .error cause after →
        cause.kind = .corruptIndex ∧ ∃ before, Halted before after ∧
          (before.view = (behind calls opened).view ∨
            ∃ target doc, call = .move (.skipTo target) ∧ before.current = some doc ∧
              doc < target ∧ before.view.Whole true) := by
  obtain ⟨settled, reads⟩ := settled_of_open? known
  obtain ⟨founded, stays⟩ := behind_founded settled.coherent.founded calls
  have readsBehind := stays.withExtents.trans reads
  refine ⟨behind_whole settled.coherent.founded reads (reads ▸ settled.whole) calls,
    fun call => ⟨fun after run => ?_, fun cause after failed => ?_⟩⟩
  · have cases := call.view_cases founded readsBehind
    rw [Step.endState_ok run] at cases
    refine cases.imp_right fun either => either.resolve_right ?_
    rintro ⟨_, _, _, _, failed, _⟩
    cases run.symm.trans failed
  · have ended := call.run_ended founded
    rw [failed] at ended
    cases ended with
    | @broke before _ _ approaches halted =>
        obtain ⟨foundedBefore, staysBefore⟩ := approaches.founded founded
        refine ⟨(advance_ends foundedBefore).of_error halted, before, advance_halts halted, ?_⟩
        cases approaches with
        | here => exact .inl rfl
        | entered => exact .inl rfl
        | @passed target doc _ skips settledBefore _ shown below =>
            have whole := settledBefore.whole
            rw [staysBefore.withExtents.trans readsBehind] at whole
            exact .inr ⟨target, doc, skips, shown, below, whole⟩

end Reader

namespace Example

/-- A block of documents 5, 7 and 9.  The extents end behind the second posting. -/
def cutShort : List UInt8 := [3, 3, 1, 128, 1, 0, 0, 3, 3, 4, 5, 2, 2, 1, 1, 1, 0, 1, 4, 1]

end Example

namespace Reader

theorem behind_view_cutShort :
    ∃ opened, open? Example.cutShort true = .ok opened ∧
      (behind [.move .advance, .move .advance] opened).view = ⟨some (.ofNat 7), 1, [], false⟩ ∧
      ∃ front call back, [.move .advance, .move .advance] = front ++ call :: back ∧
        call.Tears (behind front opened) ∧ (behind (front ++ [call]) opened).view =
          (behind [.move .advance, .move .advance] opened).view := by
  have views : (open? Example.cutShort true).toOption.map (fun opened =>
      (behind [.move .advance, .move .advance] opened).view) =
        some ⟨some (.ofNat 7), 1, [], false⟩ := by cbv
  obtain ⟨opened, held, shown⟩ := Option.map_eq_some_iff.mp views
  have known : open? Example.cutShort true = .ok opened := by
    cases run : open? Example.cutShort true with
    | error cause =>
        rw [run] at held
        cases held
    | ok other =>
        rw [run] at held
        cases held
        rfl
  refine ⟨opened, known, shown, ?_⟩
  rcases (behind_view known [.move .advance, .move .advance]).1 with whole | torn
  · obtain ⟨length, _⟩ := whole.listed (by rw [shown]) rfl
    rw [shown] at length
    cases length
  · exact torn

/-- An advance past the second posting tears, and so does a skip to the third one, which also
leaves the first posting for the second. -/
theorem not_always_whole :
    (¬∀ (bytes : List UInt8) (opened : Reader) (calls : List Call),
      open? bytes true = .ok opened → (behind calls opened).isDone = false →
        (behind calls opened).count = (behind calls opened).extents.length) ∧
    ¬∀ (bytes : List UInt8) (opened : Reader) (calls : List Call) (call : Call) (cause : Error)
      (after : Reader), open? bytes true = .ok opened →
        call.run (behind calls opened) = .error cause after →
          after.view = (behind calls opened).view := by
  constructor
  · intro always
    have counted := always Example.cutShort _ [.move .advance, .move .advance] rfl rfl
    cases counted
  · intro always
    have same := always Example.cutShort _ [] (.move (.skipTo (.ofNat 9))) _ _ rfl rfl
    cases congrArg View.current same

end Reader

end Block

end Concordance
