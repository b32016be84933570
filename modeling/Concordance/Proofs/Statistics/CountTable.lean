import Concordance.Proofs.Decimal
import Concordance.Proofs.Session.Figures
import Concordance.Proofs.Step
import Concordance.Statistics.CountTable
import Mathlib.Data.List.DropRight
import Mathlib.Data.List.Forall2

/-!
# What a table of counts accepts

A line of a table is blank, or four fields with tabs between them of which the last three spell
numbers with blanks around them.  Such lines make a table and no others do.  A carriage return
before the end of a line is a blank behind the last number, so both kinds of line ends are
read.  An entry that was written is found again under its key, unless a later one has the key.
-/

namespace Concordance

theorem fields_eq_splitOn (separator : Char) (text : List Char) :
    fields separator text = text.splitOn separator := by
  induction text with
  | nil => rfl
  | cons char text induction =>
      rw [fields, List.splitOn_cons_eq_if_modifyHead, ← induction]
      by_cases same : char = separator
      · rw [if_pos same, if_pos (beq_iff_eq.mpr same)]
      · rw [if_neg same, if_neg (mt beq_iff_eq.mp same)]
        cases split : fields separator text with
        | nil => exact absurd split (fields_ne_nil separator text)
        | cons field later => rfl

/-- What stands behind a text without the separator belongs to its last field. -/
theorem splitOn_append {separator : Char} {tail : List Char} (none : separator ∉ tail)
    (text : List Char) : ∃ front last, text.splitOn separator = front ++ [last] ∧
      (text ++ tail).splitOn separator = front ++ [last ++ tail] := by
  induction text with
  | nil => exact ⟨[], [], rfl, List.splitOn_eq_singleton none⟩
  | cons char text induction =>
      obtain ⟨front, last, split, extended⟩ := induction
      rw [List.cons_append, List.splitOn_cons_eq_if_modifyHead,
        List.splitOn_cons_eq_if_modifyHead, split, extended]
      by_cases same : (char == separator) = true
      · rw [if_pos same, if_pos same]
        exact ⟨[] :: front, last, rfl, rfl⟩
      · rw [if_neg same, if_neg same]
        cases front with
        | nil => exact ⟨[], char :: last, rfl, rfl⟩
        | cons field front => exact ⟨(char :: field) :: front, last, rfl, rfl⟩

/-! ## Numbers in fields -/

theorem not_isBlank_of_isDigit {char : Char} (digit : char.isDigit = true) :
    isBlank char = false := by
  have range : 48 ≤ char.toNat ∧ char.toNat ≤ 57 := by
    simpa [Char.isDigit, UInt32.le_iff_toNat_le] using digit
  simp only [isBlank, Bool.or_eq_false_iff, Bool.and_eq_false_iff, decide_eq_false_iff_not,
    beq_eq_false_iff_ne]
  omega

/-- Trimming takes blanks off both ends. -/
theorem exists_trimBlanks (text : List Char) : ∃ front back,
    text = front ++ trimBlanks text ++ back ∧ (∀ char ∈ front, isBlank char = true) ∧
      ∀ char ∈ back, isBlank char = true := by
  refine ⟨text.takeWhile isBlank, (text.dropWhile isBlank).rtakeWhile isBlank, ?_, ?_, ?_⟩
  · rw [List.append_assoc]
    have back : trimBlanks text ++ (text.dropWhile isBlank).rtakeWhile isBlank =
        text.dropWhile isBlank := List.rdropWhile_append_rtakeWhile
    rw [back, List.takeWhile_append_dropWhile]
  · exact fun char member => List.mem_takeWhile_imp member
  · exact fun char member => List.mem_rtakeWhile_imp member

/-- Nothing else is taken. -/
theorem trimBlanks_append {front core back : List Char}
    (before : ∀ char ∈ front, isBlank char = true) (kept : ∀ char ∈ core, isBlank char = false)
    (behind : ∀ char ∈ back, isBlank char = true) (some : core ≠ []) :
    trimBlanks (front ++ core ++ back) = core := by
  have skip (blank text rest : List Char) (blanks : ∀ char ∈ blank, isBlank char = true)
      (solid : ∀ char ∈ text, isBlank char = false) (some : text ≠ []) :
      (blank ++ (text ++ rest)).dropWhile isBlank = text ++ rest := by
    obtain ⟨char, text, rfl⟩ := List.exists_cons_of_ne_nil some
    rw [List.dropWhile_append_of_pos blanks, List.cons_append,
      List.dropWhile_cons_of_neg (Bool.eq_false_iff.mp (solid char List.mem_cons_self))]
  have mirrored := skip back.reverse core.reverse [] (by simpa using behind)
    (by simpa using kept) (by simpa using some)
  rw [trimBlanks, List.append_assoc, skip front core back before kept some, dropTrailing,
    List.reverse_append]
  rw [List.append_nil] at mirrored
  rw [mirrored, List.reverse_reverse]

namespace CountTable

open Decimal (Digits)

/-- A number as it stands in a field: digits, perhaps a plus before them, and blanks around. -/
inductive Spells : List Char → Nat → Prop
  | field {front sign digits back : List Char} {count : Nat}
      (before : ∀ char ∈ front, isBlank char = true) (signed : sign = [] ∨ sign = ['+'])
      (spelled : Digits digits count) (behind : ∀ char ∈ back, isBlank char = true) :
      Spells (front ++ (sign ++ digits) ++ back) count

theorem spells_toDigits {count : Nat} (bound : count < Statistics.counterLimit) :
    Spells (Nat.toDigits 10 count) count := by
  have spelled : Spells ([] ++ ([] ++ Nat.toDigits 10 count) ++ []) count :=
    .field (by simp) (.inl rfl) (Decimal.digits_toDigits bound) (by simp)
  simpa using spelled

theorem readCount_eq_ok {field : List Char} {count : Nat} :
    readCount field = .ok count ↔ Spells field count := by
  have unsigned : readCount field = .ok count ↔
      Decimal.unsigned64? (trimBlanks field) = some count := by
    unfold readCount
    split <;> rename_i read <;> simp [read]
  rw [unsigned, Decimal.unsigned64?_eq_some]
  constructor
  · rintro ⟨sign, digits, core, signed, spelled⟩
    obtain ⟨front, back, whole, before, behind⟩ := exists_trimBlanks field
    rw [whole, core]
    exact .field before signed spelled behind
  · rintro ⟨before, signed, spelled, behind⟩
    rename_i front sign digits back
    refine ⟨sign, digits, ?_, signed, spelled⟩
    refine trimBlanks_append before ?_ behind (by simp [spelled.some])
    intro char member
    rcases List.mem_append.mp member with inSign | inDigits
    · rcases signed with rfl | rfl
      · cases inSign
      · cases List.mem_singleton.mp inSign
        rfl
    · exact not_isBlank_of_isDigit (spelled.numeric char inDigits)

/-- Blanks behind a number do not matter. -/
theorem spells_append {field tail : List Char} (blank : ∀ char ∈ tail, isBlank char = true)
    {count : Nat} : Spells (field ++ tail) count ↔ Spells field count := by
  have trimmed : trimBlanks (field ++ tail) = trimBlanks field := by
    have onEnd (text : List Char) : dropTrailing isBlank (text ++ tail) =
        dropTrailing isBlank text := by
      rw [dropTrailing, List.reverse_append,
        List.dropWhile_append_of_pos (by simpa using blank), dropTrailing]
    unfold trimBlanks
    rw [List.dropWhile_append]
    split
    · rename_i empty
      rw [List.isEmpty_iff.mp empty, List.dropWhile_eq_nil_iff.mpr blank]
    · exact onEnd _
  rw [← readCount_eq_ok, ← readCount_eq_ok, readCount, readCount, trimmed]
  split <;> simp

/-! ## Lines -/

/-- A line with an entry on it. -/
inductive Enters (collection : Collection) (line : List Char) (entry : Statistics) : Prop
  | fields {frequency maximum documents : List Char}
      (split : line.splitOn '\t' = [entry.node.toList, frequency, maximum, documents])
      (often : Spells frequency entry.frequency) (most : Spells maximum entry.maximum)
      (many : Spells documents entry.documents) (consistent : entry.isConsistent = true)
      (inside : entry.collection = collection)

variable {collection : Collection} {line : List Char} {entry : Statistics}

theorem readEntry_eq_ok : readEntry collection line = .ok entry ↔ Enters collection line entry := by
  constructor
  · intro read
    unfold readEntry at read
    split at read
    · rename_i key frequency maximum documents split
      obtain ⟨often, knownOften, read⟩ := Step.ok_of_bind read
      obtain ⟨most, knownMost, read⟩ := Step.ok_of_bind read
      obtain ⟨many, knownMany, read⟩ := Step.ok_of_bind read
      dsimp only at read
      split at read
      · rename_i consistent
        cases read
        rw [fields_eq_splitOn] at split
        refine ⟨?_, readCount_eq_ok.mp knownOften, readCount_eq_ok.mp knownMost,
          readCount_eq_ok.mp knownMany, consistent, rfl⟩
        rw [split, String.toList_ofList]
      · cases read
    · cases read
  · rintro ⟨split, often, most, many, consistent, rfl⟩
    rw [← fields_eq_splitOn] at split
    unfold readEntry
    rw [split]
    dsimp only
    rw [readCount_eq_ok.mpr often, readCount_eq_ok.mpr most, readCount_eq_ok.mpr many,
      String.ofList_toList]
    exact if_pos consistent

/-- Carriage returns at the end of a line are blanks behind the last number. -/
theorem enters_append {tail : List Char} (blank : ∀ char ∈ tail, isBlank char = true)
    (none : '\t' ∉ tail) :
    Enters collection (line ++ tail) entry ↔ Enters collection line entry := by
  obtain ⟨front, last, split, extended⟩ := splitOn_append none line
  constructor
  · rintro ⟨known, often, most, many, consistent, inside⟩
    rename_i frequency maximum documents
    have known : front ++ [last ++ tail] =
        [entry.node.toList, frequency, maximum] ++ [documents] := extended.symm.trans known
    obtain ⟨rfl, rfl⟩ := List.append_singleton_inj.mp known
    exact ⟨split, often, most, (spells_append blank).mp many, consistent, inside⟩
  · rintro ⟨known, often, most, many, consistent, inside⟩
    rename_i frequency maximum documents
    have known : front ++ [last] =
        [entry.node.toList, frequency, maximum] ++ [documents] := split.symm.trans known
    obtain ⟨rfl, rfl⟩ := List.append_singleton_inj.mp known
    exact ⟨extended, often, most, (spells_append blank).mpr many, consistent, inside⟩

theorem exists_dropTrailing_returns (line : List Char) :
    ∃ tail, line = dropTrailing (· == '\r') line ++ tail ∧ ∀ char ∈ tail, char = '\r' := by
  refine ⟨line.rtakeWhile (· == '\r'), List.rdropWhile_append_rtakeWhile.symm, ?_⟩
  intro char member
  have same : (char == '\r') = true :=
    List.mem_rtakeWhile_imp (p := fun char => char == '\r') member
  exact beq_iff_eq.mp same

theorem readEntry_dropTrailing :
    readEntry collection (dropTrailing (· == '\r') line) = .ok entry ↔
      Enters collection line entry := by
  obtain ⟨tail, whole, returns⟩ := exists_dropTrailing_returns line
  have blank : ∀ char ∈ tail, isBlank char = true := by
    intro char member
    rw [returns char member]
    rfl
  have none : '\t' ∉ tail := fun member => absurd (returns _ member) (by decide)
  rw [readEntry_eq_ok, ← enters_append blank none, ← whole]

theorem all_isBlank_dropTrailing :
    (dropTrailing (· == '\r') line).all isBlank = line.all isBlank := by
  obtain ⟨tail, whole, returns⟩ := exists_dropTrailing_returns line
  have blank : tail.all isBlank = true := by
    apply List.all_eq_true.mpr
    intro char member
    rw [returns char member]
    rfl
  conv_rhs => rw [whole, List.all_append, blank, Bool.and_true]

/-! ## Tables -/

/-- The lines that are not blank. -/
def rows (lines : List (List Char)) : List (List Char) :=
  lines.filter fun line => !line.all isBlank

/-- Put the entries of a list into a table one after another. -/
def enterAll (entries : TextMap Statistics) (listed : List Statistics) : TextMap Statistics :=
  listed.foldl (fun entries entry => entries.insert entry.node entry) entries

/-- The last entry of a key. -/
def lastOf (key : String) (listed : List Statistics) : Option Statistics :=
  (listed.filter (·.node = key)).getLast?

theorem get?_enterAll (entries : TextMap Statistics) (listed : List Statistics) (key : String) :
    (enterAll entries listed).get? key = (lastOf key listed).or (entries.get? key) := by
  induction listed generalizing entries with
  | nil => rfl
  | cons entry listed induction =>
      change (enterAll (entries.insert entry.node entry) listed).get? key = _
      rw [induction, TextMap.get?_insert, lastOf, lastOf, List.filter_cons]
      by_cases same : entry.node = key
      · rw [if_pos same.symm, if_pos (decide_eq_true same), List.getLast?_cons]
        cases (listed.filter (·.node = key)).getLast? with
        | none => rfl
        | some later => rfl
      · rw [if_neg (Ne.symm same), if_neg (mt of_decide_eq_true same)]

/-- Reading succeeds just on lines that are blank or hold an entry. -/
theorem readLines_eq_ok {lines : List (List Char)} {number : Nat}
    {entries read : TextMap Statistics} :
    readLines collection number lines entries = .ok read ↔
      ∃ listed, List.Forall₂ (Enters collection) (rows lines) listed ∧
        read = enterAll entries listed := by
  induction lines generalizing number entries with
  | nil =>
      constructor
      · intro done
        cases done
        exact ⟨[], .nil, rfl⟩
      · rintro ⟨listed, entered, rfl⟩
        cases entered
        rfl
  | cons line lines induction =>
      rw [readLines, all_isBlank_dropTrailing]
      by_cases blank : line.all isBlank = true
      · have skipped : rows (line :: lines) = rows lines := by simp [rows, blank]
        rw [if_pos blank, skipped]
        exact induction
      · have kept : rows (line :: lines) = line :: rows lines := by simp [rows, blank]
        rw [if_neg blank, kept]
        constructor
        · intro done
          cases known : readEntry collection (dropTrailing (· == '\r') line) with
          | error fault =>
              rw [known] at done
              cases done
          | ok entry =>
              rw [known] at done
              obtain ⟨listed, entered, same⟩ := induction.mp done
              exact ⟨entry :: listed, .cons (readEntry_dropTrailing.mp known) entered, same⟩
        · rintro ⟨_, entered, same⟩
          cases entered with
          | cons first later =>
              rw [readEntry_dropTrailing.mpr first]
              exact induction.mpr ⟨_, later, same⟩

theorem readLines_error {lines : List (List Char)} {number : Nat} {entries : TextMap Statistics}
    {cause : Error} (failed : readLines collection number lines entries = .error cause) :
    cause.kind = .configLoad := by
  induction lines generalizing number entries with
  | nil => cases failed
  | cons line lines induction =>
      rw [readLines] at failed
      split at failed
      · exact induction failed
      · split at failed
        · exact induction failed
        · cases failed
          rfl

/-- A text makes a table just if its lines that are not blank hold entries, which are the entries
of the table then. -/
theorem parse_eq_ok {text : String} {table : CountTable} :
    parse text collection = .ok table ↔
      ∃ listed, List.Forall₂ (Enters collection) (rows (text.toList.splitOn '\n')) listed ∧
        table = ⟨enterAll TextMap.empty listed⟩ := by
  unfold parse
  rw [fields_eq_splitOn]
  constructor
  · intro parsed
    obtain ⟨entries, read, same⟩ := Step.ok_of_bind parsed
    cases same
    obtain ⟨listed, entered, rfl⟩ := readLines_eq_ok.mp read
    exact ⟨listed, entered, rfl⟩
  · rintro ⟨listed, entered, rfl⟩
    rw [readLines_eq_ok.mpr ⟨listed, entered, rfl⟩]
    rfl

theorem exists_forall₂_iff {lines : List (List Char)} :
    (∃ listed, List.Forall₂ (Enters collection) (rows lines) listed) ↔
      ∀ line ∈ lines, (∀ char ∈ line, isBlank char = true) ∨
        ∃ entry, Enters collection line entry := by
  induction lines with
  | nil => simp [rows]
  | cons line lines induction =>
      rw [List.forall_mem_cons, ← induction, ← List.all_eq_true]
      by_cases blank : line.all isBlank = true
      · simp [rows, blank]
      · have kept : rows (line :: lines) = line :: rows lines := by simp [rows, blank]
        rw [kept]
        constructor
        · rintro ⟨_, entered⟩
          cases entered with
          | cons first later => exact ⟨.inr ⟨_, first⟩, _, later⟩
        · rintro ⟨here, listed, entered⟩
          obtain ⟨entry, first⟩ := here.resolve_left blank
          exact ⟨entry :: listed, .cons first entered⟩

/-! ## Writing -/

/-- A line as it is written: an entry, or blanks. -/
inductive Line
  | entry (figures : Statistics)
  | blank (text : List Char)

namespace Line

def text : Line → List Char
  | .entry figures =>
    ['\t'].intercalate [figures.node.toList, Nat.toDigits 10 figures.frequency,
      Nat.toDigits 10 figures.maximum, Nat.toDigits 10 figures.documents]
  | .blank text => text

def figures? : Line → Option Statistics
  | .entry figures => some figures
  | .blank _ => none

/-- A line that can be told from its neighbours and its fields from each other, with figures that
are consistent and fit their words. -/
def Proper (collection : Collection) : Line → Prop
  | .entry figures =>
    '\t' ∉ figures.node.toList ∧ '\n' ∉ figures.node.toList ∧
      figures.frequency < Statistics.counterLimit ∧ figures.isConsistent = true ∧
        figures.collection = collection
  | .blank text => '\n' ∉ text ∧ ∀ char ∈ text, isBlank char = true

instance (collection : Collection) : (line : Line) → Decidable (line.Proper collection)
  | .entry _ => inferInstanceAs (Decidable (_ ∧ _))
  | .blank _ => inferInstanceAs (Decidable (_ ∧ _))

end Line

/-- What ends a line: a line feed, with a carriage return before it or without. -/
def lineEnd (returns : Bool) : List Char := if returns then ['\r', '\n'] else ['\n']

/-- The text of lines with their ends and of a last line, which has none. -/
def write (lines : List (Line × Bool)) (last : Line) : String :=
  String.ofList (lines.flatMap (fun line => line.1.text ++ lineEnd line.2) ++ last.text)

/-- The entries that are written. -/
def written (lines : List (Line × Bool)) (last : Line) : List Statistics :=
  (lines.map Prod.fst ++ [last]).filterMap Line.figures?

/-- What of the end of a line stands before its line feed. -/
def lineTail (returns : Bool) : List Char := if returns then ['\r'] else []

theorem lineTail_blank {returns : Bool} {char : Char} (member : char ∈ lineTail returns) :
    char = '\r' := by
  cases returns with
  | false => cases member
  | true => exact List.mem_singleton.mp member

namespace Line

variable {line : Line}

theorem no_feed (proper : line.Proper collection) : '\n' ∉ line.text := by
  cases line with
  | blank text => exact proper.1
  | entry figures =>
      have digits := Decimal.not_mem_toDigits '\n' rfl
      simp [text, List.intercalate, proper.2.1, digits]

/-- The line of an entry holds the entry, with what stands behind it too. -/
theorem enters {figures : Statistics} (proper : (Line.entry figures).Proper collection)
    {tail : List Char} (returns : ∀ char ∈ tail, char = '\r') :
    Enters collection ((Line.entry figures).text ++ tail) figures := by
  obtain ⟨noTab, _, bound, consistent, inside⟩ := proper
  have digits := Decimal.not_mem_toDigits '\t' rfl
  have blank : ∀ char ∈ tail, isBlank char = true := by
    intro char member
    rw [returns char member]
    rfl
  obtain ⟨few, most, _⟩ := Statistics.isConsistent_iff.mp consistent
  have spells {count : Nat} (below : count ≤ figures.frequency) :
      Spells (Nat.toDigits 10 count) count :=
    spells_toDigits (Nat.lt_of_le_of_lt below bound)
  refine (enters_append blank fun member => absurd (returns _ member) (by decide)).mpr
    ⟨List.splitOn_intercalate '\t' ?_ (by simp), spells (Nat.le_refl _), spells most, spells few,
      consistent, inside⟩
  simp [noTab, digits]

/-- A written line is a row if it is an entry, and is passed over if not. -/
theorem forall₂_cons (proper : line.Proper collection) {tail : List Char}
    (returns : ∀ char ∈ tail, char = '\r') {lines : List (List Char)} {listed : List Statistics}
    (entered : List.Forall₂ (Enters collection) (rows lines) listed) :
    List.Forall₂ (Enters collection) (rows ((line.text ++ tail) :: lines))
      (line.figures?.toList ++ listed) := by
  cases line with
  | blank text =>
      have blank : (text ++ tail).all isBlank = true := by
        apply List.all_eq_true.mpr
        intro char member
        rcases List.mem_append.mp member with inside | behind
        · exact proper.2 char inside
        · rw [returns char behind]
          rfl
      simpa [rows, Line.text, figures?, blank] using entered
  | entry figures =>
      have holds := enters proper returns
      have filled : ((Line.entry figures).text ++ tail).all isBlank = false := by
        obtain ⟨digit, later, spelled⟩ :=
          List.exists_cons_of_ne_nil (Nat.toDigits_ne_nil (b := 10) (n := figures.frequency))
        have numeric : isBlank digit = false := by
          apply not_isBlank_of_isDigit
          exact Nat.isDigit_of_mem_toDigits (b := 10) (n := figures.frequency) (by omega)
            (by omega) (by simp [spelled])
        simp [text, List.intercalate, spelled, numeric]
      have kept : rows (((Line.entry figures).text ++ tail) :: lines) =
          ((Line.entry figures).text ++ tail) :: rows lines := by
        simp [rows, filled]
      rw [kept]
      exact .cons holds entered

end Line

theorem splitOn_write {lines : List (Line × Bool)} {last : Line}
    (proper : ∀ line ∈ lines.map Prod.fst ++ [last], line.Proper collection) :
    (write lines last).toList.splitOn '\n' =
      lines.map (fun line => line.1.text ++ lineTail line.2) ++ [last.text] := by
  rw [write, String.toList_ofList]
  induction lines with
  | nil => exact List.splitOn_eq_singleton (Line.no_feed (proper last (by simp)))
  | cons line lines induction =>
      obtain ⟨here, later⟩ := List.forall_mem_cons.mp proper
      have ended : lineEnd line.2 = lineTail line.2 ++ ['\n'] := by cases line.2 <;> rfl
      have none : '\n' ∉ line.1.text ++ lineTail line.2 := by
        intro member
        rcases List.mem_append.mp member with inside | behind
        · exact Line.no_feed here inside
        · exact absurd (lineTail_blank behind) (by decide)
      rw [List.flatMap_cons, ended, List.map_cons, List.cons_append, ← induction later]
      have whole : line.1.text ++ (lineTail line.2 ++ ['\n']) ++
          lines.flatMap (fun line => line.1.text ++ lineEnd line.2) ++ last.text =
          (line.1.text ++ lineTail line.2) ++ '\n' ::
            (lines.flatMap (fun line => line.1.text ++ lineEnd line.2) ++ last.text) := by
        simp
      rw [whole, List.splitOn_append_cons_self_of_not_mem none]

/-- The rows of a written text are the entries that were written. -/
theorem rows_write {lines : List (Line × Bool)} {last : Line}
    (proper : ∀ line ∈ lines.map Prod.fst ++ [last], line.Proper collection) :
    List.Forall₂ (Enters collection) (rows ((write lines last).toList.splitOn '\n'))
      (written lines last) := by
  rw [splitOn_write proper]
  induction lines with
  | nil =>
      have alone : List.Forall₂ (Enters collection) (rows [last.text ++ []])
          (last.figures?.toList ++ []) :=
        Line.forall₂_cons (proper last (by simp)) (by simp) .nil
      have only : written [] last = last.figures?.toList ++ [] := by
        cases last <;> rfl
      rw [only]
      simpa using alone
  | cons line lines induction =>
      obtain ⟨here, later⟩ := List.forall_mem_cons.mp proper
      have returns : ∀ char ∈ lineTail line.2, char = '\r' := fun _ => lineTail_blank
      have longer := Line.forall₂_cons here returns (induction later)
      have first : written (line :: lines) last = line.1.figures?.toList ++ written lines last := by
        obtain ⟨line, returns⟩ := line
        cases line <;> rfl
      rw [first]
      exact longer

/-- A table reads back what was written: under each key the last entry of the key, whatever the
line ends are and however many blank lines stand between.  A text makes a table just if all its
lines are blank or hold an entry, and an error of the configuration otherwise. -/
theorem parse_reads_back (collection : Collection) :
    (∀ (lines : List (Line × Bool)) (last : Line),
      (∀ line ∈ lines.map Prod.fst ++ [last], line.Proper collection) →
        ∃ table, parse (write lines last) collection = .ok table ∧
          ∀ key, table.get? key = lastOf key (written lines last)) ∧
    ∀ text : String,
      ((∃ table, parse text collection = .ok table) ↔
        ∀ line ∈ text.toList.splitOn '\n', (∀ char ∈ line, isBlank char = true) ∨
          ∃ entry, Enters collection line entry) ∧
      (∀ table, parse text collection = .ok table →
        ∃ listed, List.Forall₂ (Enters collection) (rows (text.toList.splitOn '\n')) listed ∧
          ∀ key, table.get? key = lastOf key listed) ∧
      ∀ cause, parse text collection = .error cause → cause.kind = .configLoad := by
  have found (listed : List Statistics) (key : String) :
      (enterAll TextMap.empty listed).get? key = lastOf key listed := by
    rw [get?_enterAll]
    exact Option.or_none
  refine ⟨?_, fun text => ⟨?_, ?_, ?_⟩⟩
  · intro lines last proper
    exact ⟨_, parse_eq_ok.mpr ⟨_, rows_write proper, rfl⟩, found _⟩
  · rw [← exists_forall₂_iff]
    constructor
    · rintro ⟨table, parsed⟩
      obtain ⟨listed, entered, _⟩ := parse_eq_ok.mp parsed
      exact ⟨listed, entered⟩
    · rintro ⟨listed, entered⟩
      exact ⟨_, parse_eq_ok.mpr ⟨listed, entered, rfl⟩⟩
  · intro table parsed
    obtain ⟨listed, entered, rfl⟩ := parse_eq_ok.mp parsed
    exact ⟨listed, entered, found listed⟩
  · intro cause failed
    unfold parse at failed
    cases read : readLines collection 1 (fields '\n' text.toList) TextMap.empty with
    | ok entries =>
        rw [read] at failed
        cases failed
    | error other =>
        rw [read] at failed
        cases failed
        exact readLines_error read

theorem parse_reads_back_later_entry :
    ∃ table, parse "a\t1\t1\t1\r\n \n\na\t4\t3\t2" ⟨9, 5⟩ = .ok table ∧
      table.get? "a" = some ⟨"a", 4, 2, 3, ⟨9, 5⟩⟩ ∧ table.get? "b" = none := by
  obtain ⟨table, parsed, found⟩ := (parse_reads_back ⟨9, 5⟩).1
    [(.entry ⟨"a", 1, 1, 1, ⟨9, 5⟩⟩, true), (.blank [' '], false), (.blank [], false)]
    (.entry ⟨"a", 4, 2, 3, ⟨9, 5⟩⟩)
    (by simp [Line.Proper, isBlank, Statistics.isConsistent, Statistics.counterLimit])
  refine ⟨table, (congrArg (parse · ⟨9, 5⟩) ?_).trans parsed, (found "a").trans (by cbv),
    (found "b").trans (by cbv)⟩
  cbv

end CountTable

end Concordance
