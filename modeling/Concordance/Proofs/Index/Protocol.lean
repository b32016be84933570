import Concordance.Proofs.Block.Refusal
import Concordance.Proofs.Index.Writer

/-!
# The writer in place

A writer that stands in memory is changed by a call as the call goes on: the
open document is taken before its block gets it, the open key is closed before
the next one goes to the dictionary.  A failure between two changes would leave
the first of them.  No call fails there: it is refused before its first change
or not at all.  So the calls that were refused may be left out, and the file is
the same.
-/

namespace Concordance

namespace Index

namespace Writer

/-- Take the open document and put it into the block of its key. -/
def takeDocument : Step Writer Unit := do
  let writer ← get
  set { writer with document := none }
  match writer.document, writer.block with
  | some (doc, extents), some block =>
    if extents.isEmpty then pure ()
    else
      Step.onPart (fun _ => block) (fun left block => { left with block := some block })
        (Block.Builder.extend doc extents.reverse)
  | _, _ => pure ()

/-- Take the block of the open key and put it behind the others. -/
def takeKey : Step Writer Unit := do
  takeDocument
  let writer ← get
  match writer.block with
  | none => pure ()
  | some block => set ({ writer with block := none }.append block.finish)

/-- Put a key into the dictionary, which takes ascending keys only. -/
def enterKey (key : Key) : Step Writer Unit := do
  let writer ← get
  if let some (last, _) := writer.keys.back? then
    if key ≤ last then throw .malformedDictionary
  set { writer with keys := writer.keys.push (key, writer.postingsLength) }

/-- Open a key above all keys so far. -/
def openKey (key : Key) : Step Writer Unit := do
  let writer ← get
  if let some last := writer.lastKey then
    if key ≤ last then throw (.keyNotAfter key last)
  takeKey
  enterKey key
  modify fun writer =>
    { writer with
      lastKey := some key
      block := some (Block.Builder.new writer.interval)
      lastDoc := none }

/-- Open a document above all documents of the open key. -/
def openDocument (doc : DocId) : Step Writer Unit := do
  let writer ← get
  if writer.block.isNone then throw .documentBeforeKey
  if let some last := writer.lastDoc then
    if doc ≤ last then throw (.docNotAfter doc last)
  takeDocument
  modify fun writer => { writer with document := some (doc, []), lastDoc := some doc }

/-- Add an extent that is the right way round and does not start before the last
one of the open document. -/
def noteExtent (extent : Extent) : Step Writer Unit := do
  let writer ← get
  let noted ← Step.ofExcept (writer.addExtent extent)
  set noted

/-- Make a call in place. -/
def perform : Call → Step Writer Unit
  | .beginKey key => openKey key
  | .beginDocument doc => openDocument doc
  | .addOccurrence position => noteExtent (Extent.point position)
  | .addExtent extent => noteExtent extent
  | .setCollection length documents => modify (setCollection · ⟨length.toNat, documents.toNat⟩)

/-- Make calls, whatever becomes of each, and keep those that were accepted. -/
def attempt : List Call → Writer → List Call × Writer
  | [], writer => ([], writer)
  | request :: calls, writer =>
    match perform request writer with
    | .ok _ after =>
      let (accepted, last) := attempt calls after
      (request :: accepted, last)
    | .error _ after => attempt calls after

end Writer

/-! ## What a call has to meet -/

namespace Ledger

/-- An extent that comes next in the open document: it is the right way round and
does not start before the last one. -/
def AllowsExtent (ledger : Ledger) (extent : Extent) : Prop :=
  ∃ record earlier doc extents documents,
    ledger.records = record :: earlier ∧ record.documents = (doc, extents) :: documents ∧
      extent.start ≤ extent.stop ∧ ∀ last, extents.head? = some last → last.start ≤ extent.start

/-- A call that comes next: a key above all keys, a document above all documents
of the open key, an extent that comes next. -/
def Allows (ledger : Ledger) : Call → Prop
  | .beginKey key => ∀ record ∈ ledger.records, record.key < key
  | .beginDocument doc =>
    ∃ record earlier, ledger.records = record :: earlier ∧
      ∀ entry ∈ record.documents, entry.1 < doc
  | .addOccurrence position => ledger.AllowsExtent (Extent.point position)
  | .addExtent extent => ledger.AllowsExtent extent
  | .setCollection _ _ => True

end Ledger

namespace Writer

/-- A writer answers a call as its ledger demands, and as the writer that is passed
on from call to call does.  A refused call changes nothing. -/
def Answers (ledger : Ledger) (writer : Writer) (request : Call) : Prop :=
  match perform request writer with
  | .ok _ after => ledger.Allows request ∧ writer.call request = .ok after
  | .error cause after =>
    ¬ledger.Allows request ∧ cause.kind = .invalidArgument ∧ after = writer ∧
      writer.call request = .error cause

variable {interval : Nat} {ledger : Ledger} {writer after : Writer} {request : Call}

theorem answers_ok (run : perform request writer = .ok () after) (allowed : ledger.Allows request)
    (called : writer.call request = .ok after) : Answers ledger writer request := by
  rw [Answers, run]
  exact ⟨allowed, called⟩

theorem answers_error {cause : Error} (run : perform request writer = .error cause writer)
    (refused : ¬ledger.Allows request) (kind : cause.kind = .invalidArgument)
    (called : writer.call request = .error cause) : Answers ledger writer request := by
  rw [Answers, run]
  exact ⟨refused, kind, rfl, called⟩

/-! ## Taking what is open -/

theorem takeDocument_run (closed : writer.closeDocument = .ok after) :
    takeDocument writer = .ok () after := by
  unfold closeDocument at closed
  unfold takeDocument
  rw [Step.bind_ok _ (Step.get_run writer), Step.bind_ok _ (Step.set_run writer _)]
  cases document : writer.document with
  | none =>
      rw [document] at closed
      cases closed
      rfl
  | some entry =>
      obtain ⟨doc, extents⟩ := entry
      cases block : writer.block with
      | none =>
          rw [document, block] at closed
          cases closed
          rfl
      | some block =>
          rw [document] at closed
          simp only [block] at closed
          dsimp only
          by_cases empty : extents.isEmpty = true
          · rw [if_pos empty] at closed ⊢
            cases closed
            rfl
          · rw [if_neg empty] at closed ⊢
            obtain ⟨grown, added, same⟩ := Step.ok_of_bind closed
            cases same
            exact Step.onPart_ok (Block.Builder.extend_run added)

theorem takeKey_run (closed : writer.closeKey = .ok after) : takeKey writer = .ok () after := by
  obtain ⟨middle, document, later⟩ := Step.ok_of_bind closed
  unfold takeKey
  rw [Step.bind_ok _ (takeDocument_run document), Step.bind_ok _ (Step.get_run middle)]
  cases block : middle.block with
  | none =>
      rw [block] at later
      cases later
      rfl
  | some block =>
      simp only [block] at later
      cases later
      rfl

/-- The last key of the dictionary is the last key of the ledger. -/
theorem Rests.back_keys (rests : Rests interval ledger writer) :
    writer.keys.back?.map Prod.fst = ledger.records.head?.map Record.key := by
  rw [← Array.getLast?_toList, rests.keys, ← List.getLast?_map, keys_entriesFrom,
    List.getLast?_map, List.getLast?_reverse]

theorem enterKey_run (rests : Rests interval ledger writer) {key : Key}
    (allowed : ∀ record ∈ ledger.records, record.key < key) :
    enterKey key writer =
      .ok () { writer with keys := writer.keys.push (key, writer.postingsLength) } := by
  have same := rests.back_keys
  unfold enterKey
  rw [Step.bind_ok _ (Step.get_run writer)]
  cases back : writer.keys.back? with
  | none => rfl
  | some entry =>
      obtain ⟨last, offset⟩ := entry
      rw [back] at same
      obtain ⟨record, latest, rfl⟩ := Option.map_eq_some_iff.mp same.symm
      have above : ¬record.key ≥ key :=
        List.not_le.mpr (allowed record (List.mem_of_head? latest))
      simp only [if_neg above]
      rfl

/-! ## One call -/

/-- A key above the last one is opened behind the block of the key before. -/
theorem openKey_ok {closed : Writer} {key : Key}
    (above : ∀ last, writer.lastKey = some last → ¬key ≤ last)
    (closing : writer.closeKey = .ok closed)
    (entered : enterKey key closed =
      .ok () { closed with keys := closed.keys.push (key, closed.postingsLength) })
    (isAfter : after =
      { closed with
        keys := closed.keys.push (key, closed.postingsLength)
        lastKey := some key
        block := some (Block.Builder.new closed.interval)
        lastDoc := none }) :
    openKey key writer = .ok () after ∧ writer.beginKey key = .ok after := by
  subst isAfter
  have taken := takeKey_run closing
  unfold openKey beginKey
  rw [Step.bind_ok _ (Step.get_run writer), closing]
  cases known : writer.lastKey with
  | none =>
      dsimp only
      rw [Step.bind_ok _ taken, Step.bind_ok _ entered]
      exact ⟨rfl, rfl⟩
  | some last =>
      simp only [if_neg (above last known)]
      rw [Step.bind_ok _ taken, Step.bind_ok _ entered]
      exact ⟨rfl, rfl⟩

theorem openKey_error {key last : Key} (known : writer.lastKey = some last) (below : key ≤ last) :
    openKey key writer = .error (.keyNotAfter key last) writer ∧
      writer.beginKey key = .error (.keyNotAfter key last) := by
  unfold openKey beginKey
  rw [Step.bind_ok _ (Step.get_run writer)]
  simp only [known, if_pos below]
  exact ⟨rfl, rfl⟩

theorem beginKey_answers (holds : Holds interval ledger writer) (inOrder : ledger.InOrder)
    (key : Key) : Answers ledger writer (.beginKey key) := by
  have lastKey := holds.lastKey
  by_cases allowed : ∀ record ∈ ledger.records, record.key < key
  · obtain ⟨closed, closing, rests⟩ := closeKey_holds holds inOrder
    have above : ∀ last, writer.lastKey = some last → ¬key ≤ last := by
      intro last known
      rw [lastKey] at known
      obtain ⟨record, latest, rfl⟩ := Option.map_eq_some_iff.mp known
      exact List.not_le.mpr (allowed record (List.mem_of_head? latest))
    obtain ⟨run, called⟩ := openKey_ok above closing (enterKey_run rests allowed) rfl
    exact answers_ok run allowed called
  · cases opened : ledger.records with
    | nil =>
        rw [opened] at allowed
        exact absurd (fun _ impossible => nomatch impossible) allowed
    | cons record earlier =>
        rw [opened] at lastKey
        have below : key ≤ record.key := by
          apply List.not_lt.mp
          intro less
          refine allowed (inOrder.above_last ?_)
          rintro other latest
          rw [opened] at latest
          cases latest
          exact less
        obtain ⟨run, called⟩ := openKey_error lastKey below
        exact answers_error run allowed rfl called

/-- A document above the last one is opened behind the one before. -/
theorem openDocument_ok {closed : Writer} {doc : DocId} (begun : writer.block.isNone = false)
    (above : ∀ last, writer.lastDoc = some last → ¬doc ≤ last)
    (closing : writer.closeDocument = .ok closed)
    (isAfter : after = { closed with document := some (doc, []), lastDoc := some doc }) :
    openDocument doc writer = .ok () after ∧ writer.beginDocument doc = .ok after := by
  subst isAfter
  have taken := takeDocument_run closing
  unfold openDocument beginDocument
  rw [Step.bind_ok _ (Step.get_run writer), closing]
  simp only [begun, Bool.false_eq_true, if_false]
  cases known : writer.lastDoc with
  | none =>
      dsimp only
      rw [Step.bind_ok _ taken]
      exact ⟨rfl, rfl⟩
  | some last =>
      simp only [if_neg (above last known)]
      rw [Step.bind_ok _ taken]
      exact ⟨rfl, rfl⟩

theorem openDocument_unopened (doc : DocId) (begun : writer.block.isNone = true) :
    openDocument doc writer = .error .documentBeforeKey writer ∧
      writer.beginDocument doc = .error .documentBeforeKey := by
  unfold openDocument beginDocument
  rw [Step.bind_ok _ (Step.get_run writer)]
  simp only [begun, if_true]
  exact ⟨rfl, rfl⟩

theorem openDocument_error {doc last : DocId} (begun : writer.block.isNone = false)
    (known : writer.lastDoc = some last) (below : doc ≤ last) :
    openDocument doc writer = .error (.docNotAfter doc last) writer ∧
      writer.beginDocument doc = .error (.docNotAfter doc last) := by
  unfold openDocument beginDocument
  rw [Step.bind_ok _ (Step.get_run writer)]
  simp only [begun, Bool.false_eq_true, if_false, known, if_pos below]
  exact ⟨rfl, rfl⟩

theorem beginDocument_answers (holds : Holds interval ledger writer) (inOrder : ledger.InOrder)
    (doc : DocId) : Answers ledger writer (.beginDocument doc) := by
  cases opened : ledger.records with
  | nil =>
      have begun : writer.block.isNone = true := by
        rw [holds.blank_block opened]
        rfl
      obtain ⟨run, called⟩ := openDocument_unopened doc begun
      refine answers_error run ?_ rfl called
      rintro ⟨record, earlier, same, _⟩
      exact nomatch opened.symm.trans same
  | cons record earlier =>
      have begun : writer.block.isNone = false := by
        rw [holds.opened_block opened]
        rfl
      have lastDoc := holds.lastDoc
      rw [holds.opened_document opened] at lastDoc
      by_cases above : ∀ entry ∈ record.documents, entry.1 < doc
      · have passed : ∀ last, writer.lastDoc = some last → ¬doc ≤ last := by
          intro last known
          rw [lastDoc] at known
          obtain ⟨entry, latest, rfl⟩ := Option.map_eq_some_iff.mp known
          exact DocId.not_le.mpr (above entry (List.mem_of_head? latest))
        obtain ⟨run, called⟩ :=
          openDocument_ok begun passed (closeDocument_holds holds inOrder opened) rfl
        exact answers_ok run ⟨record, earlier, opened, above⟩ called
      · cases documents : record.documents with
        | nil =>
            rw [documents] at above
            exact absurd (fun _ impossible => nomatch impossible) above
        | cons entry documents =>
            rw [documents] at lastDoc
            have ascending := inOrder.documents record (opened ▸ List.mem_cons_self)
            rw [documents] at above ascending
            have below : doc ≤ entry.1 := by
              apply DocId.not_lt.mp
              intro less
              refine above (List.forall_mem_cons.mpr ⟨less, fun other member => ?_⟩)
              exact Nat.lt_trans ((List.pairwise_cons.mp ascending).1 other member) less
            obtain ⟨run, called⟩ := openDocument_error begun lastDoc below
            refine answers_error run ?_ rfl called
            rintro ⟨latest, others, same, all⟩
            cases opened.symm.trans same
            exact above (documents ▸ all)

theorem addExtent_some {doc : DocId} {extents : List Extent} {extent : Extent}
    (current : writer.document = some (doc, extents)) :
    writer.addExtent extent =
      if extent.start ≤ extent.stop ∧
          ∀ last, extents.head? = some last → last.start ≤ extent.start then
        .ok { writer with document := some (doc, extent :: extents) }
      else .error (.extentOutOfOrder extent.start extent.stop doc) := by
  unfold addExtent
  rw [current]
  cases extents <;> simp

/-- A writer takes an extent exactly where it comes next in the open document. -/
theorem addExtent_cases (holds : Holds interval ledger writer) (extent : Extent) :
    (∃ after, writer.addExtent extent = .ok after ∧ ledger.AllowsExtent extent) ∨
      ∃ cause, writer.addExtent extent = .error cause ∧ cause.kind = .invalidArgument ∧
        ¬ledger.AllowsExtent extent := by
  have open_of {record earlier} (opened : ledger.records = record :: earlier) :=
    holds.opened_document opened
  cases current : writer.document with
  | none =>
      refine .inr ⟨.occurrenceBeforeDocument, ?_, rfl, ?_⟩
      · unfold addExtent
        rw [current]
      · rintro ⟨record, earlier, doc, extents, documents, opened, split, _⟩
        have latest := (open_of opened).symm.trans current
        rw [split] at latest
        cases latest
  | some entry =>
      obtain ⟨doc, extents⟩ := entry
      have known := @addExtent_some writer doc extents extent current
      obtain ⟨record, earlier, opened⟩ := holds.opened_of_document current
      obtain ⟨documents, split⟩ :=
        List.head?_eq_some_iff.mp ((open_of opened).symm.trans current)
      by_cases next : extent.start ≤ extent.stop ∧
          ∀ last, extents.head? = some last → last.start ≤ extent.start
      · rw [if_pos next] at known
        exact .inl ⟨_, known, record, earlier, doc, extents, documents, opened, split, next⟩
      · rw [if_neg next] at known
        refine .inr ⟨_, known, rfl, ?_⟩
        rintro ⟨latest, others, last, found, behind, same, halves, allowed⟩
        cases opened.symm.trans same
        cases split.symm.trans halves
        exact next allowed

theorem noteExtent_answers (holds : Holds interval ledger writer) {extent : Extent}
    (inPlace : perform request = noteExtent extent)
    (passedOn : writer.call request = writer.addExtent extent)
    (allows : ledger.Allows request = ledger.AllowsExtent extent) :
    Answers ledger writer request := by
  have run : noteExtent extent writer =
      match writer.addExtent extent with
      | .ok after => .ok () after
      | .error cause => .error cause writer := by
    unfold noteExtent
    rw [Step.bind_ok _ (Step.get_run writer)]
    cases writer.addExtent extent <;> rfl
  rcases addExtent_cases holds extent with ⟨after, called, allowed⟩ | ⟨cause, called, kind, refused⟩
  · rw [called] at run passedOn
    exact answers_ok (inPlace ▸ run) (allows ▸ allowed) passedOn
  · rw [called] at run passedOn
    exact answers_error (inPlace ▸ run) (allows ▸ refused) kind passedOn

/-- A writer that holds what its ledger says answers every call as it should. -/
theorem call_answers (holds : Holds interval ledger writer) (inOrder : ledger.InOrder)
    (request : Call) : Answers ledger writer request := by
  cases request with
  | beginKey key => exact beginKey_answers holds inOrder key
  | beginDocument doc => exact beginDocument_answers holds inOrder doc
  | addOccurrence position => exact noteExtent_answers holds rfl rfl rfl
  | addExtent extent => exact noteExtent_answers holds rfl rfl rfl
  | setCollection length documents => exact answers_ok rfl trivial rfl

/-! ## Call after call -/

theorem attempt_accepted (calls : List Call) (run : perform request writer = .ok () after) :
    attempt (request :: calls) writer =
      (request :: (attempt calls after).1, (attempt calls after).2) := by
  rw [attempt, run]

theorem attempt_refused {cause : Error} (calls : List Call)
    (run : perform request writer = .error cause after) :
    attempt (request :: calls) writer = attempt calls after := by
  rw [attempt, run]

/-- What was accepted leaves the same writer when nothing else is tried. -/
theorem attempt_holds (holds : Holds interval ledger writer) (inOrder : ledger.InOrder)
    (calls : List Call) :
    Holds interval ((attempt calls writer).1.foldl Ledger.record ledger) (attempt calls writer).2 ∧
      ((attempt calls writer).1.foldl Ledger.record ledger).InOrder ∧
      attempt (attempt calls writer).1 writer = attempt calls writer := by
  induction calls generalizing ledger writer with
  | nil => exact ⟨holds, inOrder, rfl⟩
  | cons request calls induction =>
      have answers := call_answers holds inOrder request
      unfold Answers at answers
      cases run : perform request writer with
      | ok value after =>
          rw [run] at answers
          obtain ⟨holdsAfter, inOrderAfter⟩ := call_holds holds inOrder answers.2
          obtain ⟨holdsLast, inOrderLast, again⟩ := induction holdsAfter inOrderAfter
          rw [attempt_accepted calls run]
          refine ⟨holdsLast, inOrderLast, ?_⟩
          rw [attempt_accepted _ run, again]
      | error cause after =>
          rw [run] at answers
          obtain ⟨_, _, rfl, _⟩ := answers
          rw [attempt_refused calls run]
          exact induction holds inOrder

/-- However calls are mixed, each is accepted exactly where it comes next, a refusal
is that of an argument and changes nothing, and the finished file says what the
accepted calls said, as if no other had been made. -/
theorem attempt_exact (interval : Nat) (calls : List Call) (format : KeyFormat) :
    let (accepted, writer) := attempt calls (new interval)
    (∀ request, Answers (Ledger.ofCalls accepted) writer request) ∧
      attempt accepted (new interval) = (accepted, writer) ∧
      writer.finish format = .ok ((Ledger.ofCalls accepted).written (max interval 1) format) := by
  obtain ⟨holds, inOrder, again⟩ :=
    attempt_holds (new_holds interval) Ledger.InOrder.empty calls
  exact ⟨call_answers holds inOrder, again, finish_holds holds inOrder format⟩

end Writer

end Index

end Concordance
