import Concordance.Query.Param
import Concordance.TextMap

/-!
# Nodes of a query

A query is a tree of nodes.  A node has an operator, named parameters and
children.  Its text names the operator, the default parameter, the other
parameters in ascending order of their names and then the children.
-/

namespace Concordance

/-- A structured query. -/
structure Node where
  operator : String
  parameters : TextMap Param
  children : List Node

namespace Node

/-- The name of the parameter that needs no name. -/
def defaultName : String := "default"

/-- A leaf over one index key, positions included. -/
def term (key : String) : Node :=
  ⟨"extents", TextMap.empty.insert defaultName (.string key), []⟩

def get? (node : Node) (name : String) : Option Param := node.parameters.get? name

def setParam (node : Node) (name : String) (value : Param) : Node :=
  { node with parameters := node.parameters.insert name value }

def getString? (node : Node) (name : String) : Option String :=
  (node.get? name).map Param.text

def getLong? (node : Node) (name : String) : Option Int :=
  (node.get? name).bind Param.asLong?

def getDouble? (node : Node) (name : String) : Option Float :=
  (node.get? name).bind Param.asDouble?

def getBool? (node : Node) (name : String) : Option Bool :=
  (node.get? name).bind Param.asBool?

/-- The operator and the parameters of a node as its text shows them. -/
def headText (operator : String) (parameters : TextMap Param) : String :=
  let named := parameters.entries.filter fun entry => entry.1 != defaultName
  "#" ++ operator ++
    (match parameters.get? defaultName with
      | some value => ":" ++ value.text
      | none => "") ++
    String.join (named.map fun entry => ":" ++ entry.1 ++ "=" ++ entry.2.text)

mutual

/-- The canonical text of a node. -/
def text : Node → String
  | ⟨operator, parameters, []⟩ => headText operator parameters ++ "()"
  | ⟨operator, parameters, child :: children⟩ =>
    headText operator parameters ++ "(" ++ textList (child :: children) ++ " )"

/-- The canonical texts of nodes, a space before each. -/
def textList : List Node → String
  | [] => ""
  | child :: children => " " ++ text child ++ textList children

end

/-- The name under which statistics of a node are looked up: its parameter
`key` if it has one, and otherwise its text. -/
def signature (node : Node) : String := (node.getString? "key").getD node.text

/-- Whether two lists of parameters have the same names and equal values. -/
def sameEntries : List (String × Param) → List (String × Param) → Bool
  | [], [] => true
  | (firstName, first) :: firsts, (secondName, second) :: seconds =>
    firstName == secondName && first == second && sameEntries firsts seconds
  | _, _ => false

mutual

/-- Equality of trees. -/
def same : Node → Node → Bool
  | ⟨operator, parameters, children⟩, ⟨otherOperator, otherParameters, otherChildren⟩ =>
    operator == otherOperator &&
      sameEntries parameters.entries otherParameters.entries &&
      sameList children otherChildren

/-- Equality of lists of trees. -/
def sameList : List Node → List Node → Bool
  | [], [] => true
  | first :: firsts, second :: seconds => same first second && sameList firsts seconds
  | _, _ => false

end

instance : BEq Node := ⟨same⟩

end Node

end Concordance
