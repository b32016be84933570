/-!
# UTF-8

Keys are byte strings that a message shows as text.  A byte string is cut into
well-formed characters and malformed pieces; a malformed piece is the longest
start of a character that its bytes still allow, or a single byte that starts
none.  `Utf8.decode?` refuses malformed pieces, `Utf8.decodeLossy` puts the
replacement character for each.
-/

namespace Concordance

namespace Utf8

/-- The value bits of a first byte, and for each byte that has to follow it the
interval in which that byte must lie. -/
def lead? (byte : Nat) : Option (Nat × List (Nat × Nat)) :=
  if byte < 0x80 then some (byte, [])
  else if byte < 0xC2 then none
  else if byte < 0xE0 then some (byte - 0xC0, [(0x80, 0xBF)])
  else if byte = 0xE0 then some (0, [(0xA0, 0xBF), (0x80, 0xBF)])
  else if byte = 0xED then some (0xD, [(0x80, 0x9F), (0x80, 0xBF)])
  else if byte < 0xF0 then some (byte - 0xE0, [(0x80, 0xBF), (0x80, 0xBF)])
  else if byte = 0xF0 then some (0, [(0x90, 0xBF), (0x80, 0xBF), (0x80, 0xBF)])
  else if byte < 0xF4 then
    some (byte - 0xF0, [(0x80, 0xBF), (0x80, 0xBF), (0x80, 0xBF)])
  else if byte = 0xF4 then some (4, [(0x80, 0x8F), (0x80, 0xBF), (0x80, 0xBF)])
  else none

/-- Read the bytes that follow a first byte.  The code point is absent when one
of them is missing or outside its interval, and reading stops there. -/
def takeTrail : List (Nat × Nat) → Nat → List UInt8 → Option Nat × List UInt8
  | [], code, bytes => (some code, bytes)
  | _ :: _, _, [] => (none, [])
  | (low, high) :: places, code, byte :: bytes =>
    if low ≤ byte.toNat ∧ byte.toNat ≤ high then
      takeTrail places (code * 64 + byte.toNat % 64) bytes
    else (none, byte :: bytes)

/-- The first piece of a non-empty byte string, and what follows it. -/
def takePiece (first : UInt8) (bytes : List UInt8) : Option Char × List UInt8 :=
  match lead? first.toNat with
  | none => (none, bytes)
  | some (code, places) =>
    let (found, rest) := takeTrail places code bytes
    (found.map Char.ofNat, rest)

theorem length_takeTrail_le (places : List (Nat × Nat)) (code : Nat) (bytes : List UInt8) :
    (takeTrail places code bytes).2.length ≤ bytes.length := by
  fun_induction takeTrail places code bytes <;> (simp_all; try omega)

theorem length_takePiece_le (first : UInt8) (bytes : List UInt8) :
    (takePiece first bytes).2.length ≤ bytes.length := by
  unfold takePiece
  split
  · exact Nat.le_refl _
  · exact length_takeTrail_le _ _ _

/-- The pieces of a byte string in order; a malformed piece has no character. -/
def pieces (bytes : List UInt8) : List (Option Char) :=
  match bytes with
  | [] => []
  | first :: rest => (takePiece first rest).1 :: pieces (takePiece first rest).2
termination_by bytes.length
decreasing_by
  have shorter := length_takePiece_le first rest
  simp only [List.length_cons]
  omega

/-- The text with these bytes, if they are well-formed. -/
def decode? (bytes : List UInt8) : Option String :=
  if (pieces bytes).all Option.isSome then
    some (String.ofList ((pieces bytes).filterMap id))
  else none

/-- The text with these bytes, a replacement character standing for each
malformed piece. -/
def decodeLossy (bytes : List UInt8) : String :=
  String.ofList ((pieces bytes).map fun piece => piece.getD '\uFFFD')

/-- The bytes of a text. -/
def encode (text : String) : List UInt8 := text.toUTF8.toList

end Utf8

end Concordance
