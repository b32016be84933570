import Concordance.Json.Number

/-!
# Records in JSON

A record is read from an object by the names of its fields or from an array by
their order.  An object may have members that are no fields, and no field
twice.
-/

namespace Concordance

namespace Json

/-- The values of the fields with these names among the members of an object.
Every name has to be readable, and no field may be there twice. -/
def fields? (names : List String) (members : List (Option String × Json)) :
    Option (List (Option Json)) := do
  let known ← members.mapM fun (name, value) => name.map fun name => (name, value)
  names.mapM fun name =>
    match known.filter fun entry => entry.1 == name with
    | [] => some none
    | [(_, value)] => some (some value)
    | _ => none

/-- The fields of a record, absent ones included. -/
def record? (names : List String) : Json → Option (List (Option Json))
  | object members => fields? names members
  | array items =>
    if items.length ≤ names.length then
      some (items.map some ++ List.replicate (names.length - items.length) none)
    else none
  | _ => none

/-- The entries of an object whose names are data. -/
def entries? {α : Type} (read : Json → Option α) : Json → Option (List (String × α))
  | object members =>
    members.mapM fun (name, value) => do
      let name ← name
      let value ← read value
      some (name, value)
  | _ => none

def string? : Json → Option String
  | string value => value
  | _ => none

def bool? : Json → Option Bool
  | bool value => some value
  | _ => none

/-- A whole number below `2 ^ 64`. -/
def natural? : Json → Option Nat
  | number numeral =>
    match Number.ofNumeral? numeral with
    | some (.natural value) => some value
    | _ => none
  | _ => none

/-- A value that may be null. -/
def optional? {α : Type} (read : Json → Option α) : Json → Option (Option α)
  | null => some none
  | value => (read value).map some

/-- An absent field has its default. -/
def orDefault {α : Type} (fallback : α) (read : Json → Option α) :
    Option Json → Option α
  | none => some fallback
  | some value => read value

end Json

end Concordance
