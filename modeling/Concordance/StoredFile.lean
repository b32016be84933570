import Concordance.Error
import Concordance.Text.Fields

/-!
# Stored files

The library opens index files, configurations and tables of counts.  Fetching
bytes is left to the caller, who hands over the name of a file with its
content.  A name that belongs to no file tells by itself why nothing can be read
under it.
-/

namespace Concordance

/-- A named file; it has no content if there is no such file. -/
structure StoredFile where
  name : String
  content : Option (List UInt8)

namespace StoredFile

/-- The greatest number of bytes in a name. -/
def maxNameLength : Nat := 4095

/-- The greatest number of bytes in a part of a name between two slashes. -/
def maxPartLength : Nat := 255

/-- Whether a part of a name stays in a directory or goes up to its parent. -/
def isStep (part : List Char) : Bool :=
  part.isEmpty || part == ['.'] || part == ['.', '.']

/-- Why nothing can be read under a name that belongs to no file.  A name that
only steps through directories is a directory itself; the search ends at the
first part that is not a step. -/
def absence (name : String) : ReadFault :=
  if name.toList.contains '\x00' then .nulInName
  else if name.isEmpty then .missing
  else if maxNameLength < (Utf8.encode name).length then .nameTooLong
  else
    match (fields '/' name.toList).find? fun part => !isStep part with
    | none => .directory
    | some part =>
      if maxPartLength < (Utf8.encode (String.ofList part)).length then .nameTooLong
      else .missing

/-- The text that a file holds. -/
def text (file : StoredFile) : Except ReadFault String :=
  match file.content with
  | none => .error (absence file.name)
  | some bytes =>
    match Utf8.decode? bytes with
    | some text => .ok text
    | none => .error .notText

end StoredFile

end Concordance
