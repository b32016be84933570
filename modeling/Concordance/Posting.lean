import Concordance.DocId
import Concordance.Extent

/-!
# Postings

A posting is what a key's list says about one document: how often the key
occurs in it and where.  The count travels as a 32-bit number of its own, so a
reader that only counts need not look at the extents.
-/

namespace Concordance

/-- The entry of one document in a list of postings. -/
structure Posting where
  doc : DocId
  count : Nat
  extents : List Extent
  deriving DecidableEq

/-- The number of a list's members as the 32-bit count that is stored. -/
def storedCount {α : Type} (members : List α) : Nat := members.length % 4294967296

/-- The posting of a document whose count is that of its extents. -/
def Posting.ofExtents (doc : DocId) (extents : List Extent) : Posting :=
  ⟨doc, storedCount extents, extents⟩

end Concordance
