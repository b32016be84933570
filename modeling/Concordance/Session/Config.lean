import Concordance.Json.Record
import Concordance.StoredFile
import Concordance.TextMap

/-!
# The configuration of a session

A configuration is stored as a JSON record.  Every field has a default.
-/

namespace Concordance

/-- How statistics are completed that have to be computed by a scan. -/
inductive Completion where
  /-- Scan every document. -/
  | full
  /-- Scan every document and keep the counts of the candidates. -/
  | onepass
  /-- Visit only the documents of a sample. -/
  | sampled
  deriving DecidableEq

namespace Completion

def name : Completion → String
  | full => "default"
  | onepass => "onepass"
  | sampled => "sampled"

def ofName? (text : String) : Option Completion :=
  if text == "default" then some full
  else if text == "onepass" then some onepass
  else if text == "sampled" then some sampled
  else none

/-- A completion is written as its name, or as an object whose only member has
that name and no value. -/
def ofJson? : Json → Option Completion
  | .string value => value.bind ofName?
  | .object [(name, .null)] => name.bind ofName?
  | _ => none

end Completion

structure Config where
  /-- Implementations in place of the built-in ones, by operator. -/
  operators : TextMap String
  /-- The file with the table of counts. -/
  countsFile : Option String
  completion : Completion
  /-- Whether equal trees are compiled to one cursor. -/
  shareNodes : Bool
  scorer : String
  /-- Figures in place of those of the index. -/
  collectionLength : Option Nat
  documentCount : Option Nat

namespace Config

def new : Config :=
  { operators := TextMap.empty
    countsFile := none
    completion := .full
    shareNodes := false
    scorer := "dirichlet"
    collectionLength := none
    documentCount := none }

def fieldNames : List String :=
  ["operators", "syntheticCounts", "completion", "shareNodes", "scorer",
    "collectionLength", "documentCount"]

def ofJson? (json : Json) : Option Config :=
  match Json.record? fieldNames json with
  | some [operators, countsFile, completion, shareNodes, scorer, length, documents] => do
    let operators ← Json.orDefault [] (Json.entries? Json.string?) operators
    let countsFile ← Json.orDefault none (Json.optional? Json.string?) countsFile
    let completion ← Json.orDefault .full Completion.ofJson? completion
    let shareNodes ← Json.orDefault false Json.bool? shareNodes
    let scorer ← Json.orDefault new.scorer Json.string? scorer
    let length ← Json.orDefault none (Json.optional? Json.natural?) length
    let documents ← Json.orDefault none (Json.optional? Json.natural?) documents
    some ⟨TextMap.ofList operators, countsFile, completion, shareNodes, scorer, length, documents⟩
  | _ => none

/-- The configuration that a value stands for. -/
def ofJson (json : Json) : Except Error Config :=
  match ofJson? json with
  | some config => .ok config
  | none => .error .malformedConfiguration

/-- The configuration that a text spells in JSON. -/
def parse (text : String) : Except Error Config :=
  match Json.parse? text with
  | some json => ofJson json
  | none => .error .malformedConfiguration

/-- The configuration in a file. -/
def load (file : StoredFile) : Except Error Config := do
  match file.text with
  | .ok text => parse text
  | .error fault => throw (.unreadable file.name fault)

end Config

end Concordance
