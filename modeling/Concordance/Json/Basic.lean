/-!
# JSON

Nodes and configurations are read from JSON.  A text is first read as a value
whose numbers are still digits and whose texts may contain halves of surrogate
pairs: whether these are acceptable depends on where the value is used.
-/

namespace Concordance

namespace Json

/-- The digits of a number as they are written. -/
structure Numeral where
  negative : Bool
  whole : List Char
  /-- The digits behind the point, none if there is no point. -/
  fraction : List Char
  /-- The exponent, its sign first. -/
  exponent : Option (Bool × List Char)

end Json

/-- A JSON value.  A text is absent when it has no reading as characters. -/
inductive Json where
  | null
  | bool (value : Bool)
  | number (numeral : Json.Numeral)
  | string (value : Option String)
  | array (items : List Json)
  | object (members : List (Option String × Json))

namespace Json

def isSpace (char : Char) : Bool :=
  char == ' ' || char == '\n' || char == '\t' || char == '\r'

def skipSpace (chars : List Char) : List Char := chars.dropWhile isSpace

/-! ## Texts -/

/-- A character of a text, or a 16-bit unit written by its number. -/
inductive Unit16 where
  | char (value : Char)
  | unit (value : Nat)

def hexDigit? (char : Char) : Option Nat :=
  if char.isDigit then some (char.toNat - 48)
  else if 'a' ≤ char ∧ char ≤ 'f' then some (char.toNat - 87)
  else if 'A' ≤ char ∧ char ≤ 'F' then some (char.toNat - 55)
  else none

/-- The four digits of a unit. -/
def readUnit : List Char → Option (Nat × List Char)
  | first :: second :: third :: fourth :: rest => do
    let first ← hexDigit? first
    let second ← hexDigit? second
    let third ← hexDigit? third
    let fourth ← hexDigit? fourth
    some (((first * 16 + second) * 16 + third) * 16 + fourth, rest)
  | _ => none

/-- The character that an escape with one letter stands for. -/
def escaped? (letter : Char) : Option Char :=
  match letter with
  | '"' => some '"'
  | '\\' => some '\\'
  | '/' => some '/'
  | 'b' => some '\x08'
  | 'f' => some '\x0c'
  | 'n' => some '\n'
  | 'r' => some '\r'
  | 't' => some '\t'
  | _ => none

/-- The units of a text behind its opening quote, in at most `limit` steps. -/
def readUnits : Nat → Array Unit16 → List Char → Option (List Unit16 × List Char)
  | 0, _, _ => none
  | limit + 1, found, chars =>
    match chars with
    | [] => none
    | '"' :: rest => some (found.toList, rest)
    | '\\' :: 'u' :: digits => do
      let (value, rest) ← readUnit digits
      readUnits limit (found.push (.unit value)) rest
    | '\\' :: letter :: rest => do
      let char ← escaped? letter
      readUnits limit (found.push (.char char)) rest
    | char :: rest =>
      if char = '\\' ∨ char.toNat < 0x20 then none
      else readUnits limit (found.push (.char char)) rest

def isHighSurrogate (unit : Nat) : Bool := 0xD800 ≤ unit && unit ≤ 0xDBFF

def isLowSurrogate (unit : Nat) : Bool := 0xDC00 ≤ unit && unit ≤ 0xDFFF

/-- The characters that units spell; two halves of a pair stand for one
character, and no half stands alone. -/
def joinUnits : List Unit16 → Option (List Char)
  | [] => some []
  | .char value :: rest => (joinUnits rest).map (value :: ·)
  | .unit high :: .unit low :: rest =>
    if isHighSurrogate high then
      if isLowSurrogate low then
        (joinUnits rest).map
          (Char.ofNat (0x10000 + (high - 0xD800) * 0x400 + (low - 0xDC00)) :: ·)
      else none
    else if isLowSurrogate high then none
    else (joinUnits (.unit low :: rest)).map (Char.ofNat high :: ·)
  | .unit value :: rest =>
    if isHighSurrogate value || isLowSurrogate value then none
    else (joinUnits rest).map (Char.ofNat value :: ·)

/-- A text behind its opening quote, in at most `limit` steps. -/
def readText (limit : Nat) (chars : List Char) : Option (Option String × List Char) := do
  let (units, rest) ← readUnits limit #[] chars
  some ((joinUnits units).map String.ofList, rest)

/-! ## Numbers -/

/-- The digits at the front of a text. -/
def spanDigits (chars : List Char) : List Char × List Char :=
  (chars.takeWhile Char.isDigit, chars.dropWhile Char.isDigit)

/-- The whole part of a number: a zero, or digits that do not start with one. -/
def readWhole (chars : List Char) : Option (List Char × List Char) :=
  match spanDigits chars with
  | ([], _) => none
  | (['0'], rest) => some (['0'], rest)
  | ('0' :: _, _) => none
  | (digits, rest) => some (digits, rest)

/-- The digits behind a point, if there is a point. -/
def readFraction : List Char → Option (List Char × List Char)
  | '.' :: rest =>
    match spanDigits rest with
    | ([], _) => none
    | (digits, after) => some (digits, after)
  | chars => some ([], chars)

/-- The exponent of a number, if there is one. -/
def readExponent : List Char → Option (Option (Bool × List Char) × List Char)
  | [] => some (none, [])
  | mark :: rest =>
    if mark = 'e' ∨ mark = 'E' then
      let (negative, digits) :=
        match rest with
        | '-' :: after => (true, after)
        | '+' :: after => (false, after)
        | after => (false, after)
      match spanDigits digits with
      | ([], _) => none
      | (value, after) => some (some (negative, value), after)
    else some (none, mark :: rest)

/-- A number whose sign has been read. -/
def readNumeral (negative : Bool) (chars : List Char) : Option (Json × List Char) := do
  let (whole, rest) ← readWhole chars
  let (fraction, rest) ← readFraction rest
  let (exponent, rest) ← readExponent rest
  some (.number ⟨negative, whole, fraction, exponent⟩, rest)

/-! ## Values -/

/-- A word off the front of a text. -/
def readWord (word : String) (value : Json) (chars : List Char) : Option (Json × List Char) :=
  if word.toList.isPrefixOf chars then some (value, chars.drop word.length) else none

/-- Items behind those found so far, up to the closing bracket. -/
def readItems (readValue : List Char → Option (Json × List Char)) :
    Nat → Array Json → List Char → Option (Json × List Char)
  | 0, _, _ => none
  | limit + 1, found, chars => do
    let (item, rest) ← readValue chars
    match skipSpace rest with
    | ',' :: after => readItems readValue limit (found.push item) after
    | ']' :: after => some (.array (found.push item).toList, after)
    | _ => none

/-- Members behind those found so far, up to the closing brace. -/
def readMembers (readValue : List Char → Option (Json × List Char)) :
    Nat → Array (Option String × Json) → List Char → Option (Json × List Char)
  | 0, _, _ => none
  | limit + 1, found, chars =>
    match skipSpace chars with
    | '"' :: name => do
      let (key, rest) ← readText limit name
      match skipSpace rest with
      | ':' :: after => do
        let (value, rest) ← readValue after
        match skipSpace rest with
        | ',' :: after => readMembers readValue limit (found.push (key, value)) after
        | '\x7d' :: after => some (.object (found.push (key, value)).toList, after)
        | _ => none
      | _ => none
    | _ => none

/-- A value off the front of a text.  A limit above the length of the text is
enough for it, and one less for what stands inside brackets. -/
def readValue : Nat → List Char → Option (Json × List Char)
  | 0, _ => none
  | limit + 1, chars =>
    match skipSpace chars with
    | [] => none
    | '"' :: rest => (readText limit rest).map fun (value, after) => (.string value, after)
    | '[' :: rest =>
      match skipSpace rest with
      | ']' :: after => some (.array [], after)
      | _ => readItems (readValue limit) limit #[] rest
    | '\x7b' :: rest =>
      match skipSpace rest with
      | '\x7d' :: after => some (.object [], after)
      | _ => readMembers (readValue limit) limit #[] rest
    | '-' :: rest => readNumeral true rest
    | 't' :: rest => readWord "true" (.bool true) ('t' :: rest)
    | 'f' :: rest => readWord "false" (.bool false) ('f' :: rest)
    | 'n' :: rest => readWord "null" .null ('n' :: rest)
    | other => readNumeral false other

/-- The value that a whole text spells. -/
def parse? (text : String) : Option Json := do
  let chars := text.toList
  let (value, rest) ← readValue (chars.length + 1) chars
  if (skipSpace rest).isEmpty then some value else none

/-- How deep values may nest where their content matters. -/
def maxDepth : Nat := 127

end Json

end Concordance
