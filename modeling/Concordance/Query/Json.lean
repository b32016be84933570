import Concordance.Error
import Concordance.Json.Record
import Concordance.Query.Node

/-!
# Nodes in JSON

A node is stored as a record of its operator, its parameters and its children.
A parameter is a plain value whose JSON type tells its own type; a whole number
that does not fit a whole parameter is read as a floating-point one.
-/

namespace Concordance

namespace Param

def ofNumber : Json.Number → Param
  | .natural value =>
    if value ≤ maxLong then .long value else .double value.toUInt64.toFloat
  | .negative value => .long value
  | .real value => .double value

def ofJson? : Json → Option Param
  | .bool value => some (.bool value)
  | .number numeral => (Json.Number.ofNumeral? numeral).map ofNumber
  | .string value => value.map .string
  | _ => none

end Param

namespace Node

def fieldNames : List String := ["operator", "parameters", "children"]

/-- The node that a value stands for, nested at most `levels` deep.  A node
takes one level, its parameters and its list of children another. -/
def ofJson? : Nat → Json → Option Node
  | levels + 2, json =>
    match Json.record? fieldNames json with
    | some [some operator, some parameters, some (.array children)] => do
      let operator ← operator.string?
      let entries ← Json.entries? Param.ofJson? parameters
      let children ← children.mapM (ofJson? levels)
      some ⟨operator, TextMap.ofList entries, children⟩
    | _ => none
  | _, _ => none

/-- The node that a text spells in JSON. -/
def parse (text : String) : Except Error Node :=
  match (Json.parse? text).bind (ofJson? Json.maxDepth) with
  | some node => .ok node
  | none => .error .malformedConfiguration

end Node

namespace Json

/-- What stands for one character between the quotes of a text. -/
def escapeChar (char : Char) : List Char :=
  match char with
  | '"' => ['\\', '"']
  | '\\' => ['\\', '\\']
  | '\x08' => ['\\', 'b']
  | '\x0c' => ['\\', 'f']
  | '\n' => ['\\', 'n']
  | '\r' => ['\\', 'r']
  | '\t' => ['\\', 't']
  | _ =>
    if char.toNat < 0x20 then
      ['\\', 'u', '0', '0', Nat.digitChar (char.toNat / 16), Nat.digitChar (char.toNat % 16)]
    else [char]

/-- A text in JSON. -/
def textLiteral (text : String) : String :=
  "\"" ++ String.ofList (text.toList.flatMap escapeChar) ++ "\""

end Json

namespace Param

/-- A parameter in JSON. -/
def json : Param → String
  | double value => Decimal.text Decimal.jsonStyle value
  | string value => Json.textLiteral value
  | other => other.text

end Param

namespace Node

/-- The parameters of a node in JSON. -/
def parametersJson (parameters : TextMap Param) : String :=
  "\x7b" ++
    ",".intercalate
      (parameters.entries.map fun entry => Json.textLiteral entry.1 ++ ":" ++ entry.2.json) ++
    "\x7d"

mutual

/-- A node in JSON, without blanks. -/
def json : Node → String
  | ⟨operator, parameters, children⟩ =>
    "\x7b\"operator\":" ++ Json.textLiteral operator ++
      ",\"parameters\":" ++ parametersJson parameters ++
      ",\"children\":[" ++ ",".intercalate (jsonList children) ++ "]\x7d"

def jsonList : List Node → List String
  | [] => []
  | child :: children => json child :: jsonList children

end

end Node

end Concordance
