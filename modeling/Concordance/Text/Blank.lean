/-!
# Blank characters

Blanks are the characters with the White_Space property.  They are stripped
around the numbers of a table of counts, and a line of blanks holds no entry.
-/

namespace Concordance

/-- Whether a character has the White_Space property. -/
def isBlank (char : Char) : Bool :=
  let code := char.toNat
  (9 ≤ code && code ≤ 13) || code == 0x20 || code == 0x85 || code == 0xA0 ||
    code == 0x1680 || (0x2000 ≤ code && code ≤ 0x200A) || code == 0x2028 ||
    code == 0x2029 || code == 0x202F || code == 0x205F || code == 0x3000

/-- Drop the characters of a kind from the end of a text. -/
def dropTrailing (drop : Char → Bool) (text : List Char) : List Char :=
  (text.reverse.dropWhile drop).reverse

/-- Drop the blanks at both ends of a text. -/
def trimBlanks (text : List Char) : List Char :=
  dropTrailing isBlank (text.dropWhile isBlank)

/-- Core's whitespace is blank. -/
theorem isBlank_of_isWhitespace {char : Char} (white : char.isWhitespace = true) :
    isBlank char = true := by
  simp only [Char.isWhitespace, Bool.or_eq_true, decide_eq_true_eq] at white
  rcases white with ((rfl | rfl) | rfl) | rfl <;> decide

end Concordance
