import Concordance.Decimal.Reader
import Concordance.Statistics.Basic
import Concordance.StoredFile
import Concordance.Text.Blank
import Concordance.Text.Fields
import Concordance.TextMap

/-!
# Tables of counts

A table of counts holds statistics that were computed beforehand, under the
signatures of their nodes.  Each line that is not blank is an entry of four
fields with tabs between them: the key, the frequency, the greatest count and
the number of documents.  The last entry of a key counts.
-/

namespace Concordance

/-- Statistics by the signatures of their nodes. -/
structure CountTable where
  entries : TextMap Statistics

namespace CountTable

/-- The number in a field, blanks around it aside. -/
def readCount (field : List Char) : Except CountLineFault Nat :=
  match Decimal.unsigned64? (trimBlanks field) with
  | some count => .ok count
  | none => .error (.notACount (String.ofList field))

/-- The entry on a line. -/
def readEntry (collection : Collection) (line : List Char) :
    Except CountLineFault Statistics :=
  match fields '\t' line with
  | [key, frequency, maximum, documents] => do
    let frequency ← readCount frequency
    let maximum ← readCount maximum
    let documents ← readCount documents
    let entry : Statistics :=
      ⟨String.ofList key, frequency, documents, maximum, collection⟩
    if entry.isConsistent then pure entry
    else throw (.inconsistent entry.node frequency maximum documents)
  | others => .error (.fieldCount others.length)

/-- Read lines from a line number on into a table. -/
def readLines (collection : Collection) :
    Nat → List (List Char) → TextMap Statistics → Except Error (TextMap Statistics)
  | _, [], entries => .ok entries
  | number, line :: lines, entries =>
    let line := dropTrailing (· == '\r') line
    if line.all isBlank then readLines collection (number + 1) lines entries
    else
      match readEntry collection line with
      | .ok entry =>
        readLines collection (number + 1) lines (entries.insert entry.node entry)
      | .error fault => .error (.countLine none number fault)

/-- The table that a text spells. -/
def parse (text : String) (collection : Collection) : Except Error CountTable := do
  let entries ← readLines collection 1 (fields '\n' text.toList) TextMap.empty
  pure ⟨entries⟩

/-- The table in a file. -/
def load (file : StoredFile) (collection : Collection) : Except Error CountTable :=
  match file.text with
  | .error fault => .error (.unreadableCounts file.name fault)
  | .ok text =>
    match parse text collection with
    | .error (.countLine _ number fault) =>
      .error (.countLine (some file.name) number fault)
    | other => other

/-- The statistics under a signature. -/
def get? (table : CountTable) (signature : String) : Option Statistics :=
  table.entries.get? signature

def size (table : CountTable) : Nat := table.entries.size

def isEmpty (table : CountTable) : Bool := table.entries.isEmpty

/-- The operators whose statistics may come from a table of counts. -/
def windowOperators : List String := ["od", "uw", "ordered", "unordered"]

def isWindowOperator (operator : String) : Bool := windowOperators.contains operator

end CountTable

end Concordance
