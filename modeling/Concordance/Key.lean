import Concordance.Text.Utf8

/-!
# Keys

A key names a list of postings.  It is any byte string; keys are ordered byte
by byte, a shorter key before the longer ones that it starts.
-/

namespace Concordance

abbrev Key := List UInt8

namespace Key

/-- The key spelled by a text. -/
def ofText (text : String) : Key := Utf8.encode text

/-- A key as messages show it. -/
def text (key : Key) : String := Utf8.decodeLossy key

end Key

end Concordance
