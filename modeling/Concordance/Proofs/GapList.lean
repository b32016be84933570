import Concordance.GapList
import Concordance.Proofs.Varint

/-!
# The bytes of a list of gaps

`GapList.bytesFrom` spells the gaps of a list behind a member that is known
already.  A list may be cut anywhere: the bytes of its back part are those of
the back part read on its own, with the last member of the front part known.
-/

namespace Concordance

namespace GapList

/-- The number that is stored for a member behind the one before it. -/
def gap : Option DocId → DocId → Nat
  | none, doc => doc.val
  | some last, doc => doc.val - last.val

/-- The bytes of members behind a known one. -/
def bytesFrom : Option DocId → List DocId → List UInt8
  | _, [] => []
  | last, doc :: docs => Varint.encode (gap last doc) ++ bytesFrom (some doc) docs

/-- The last member of a list, or the one known before. -/
def lastFrom (known : Option DocId) (docs : List DocId) : Option DocId :=
  docs.getLast?.or known

@[simp]
theorem lastFrom_nil (known : Option DocId) : lastFrom known [] = known := rfl

theorem lastFrom_cons (known : Option DocId) (doc : DocId) (docs : List DocId) :
    lastFrom known (doc :: docs) = lastFrom (some doc) docs := by
  cases docs with
  | nil => rfl
  | cons next docs =>
      unfold lastFrom
      rw [List.getLast?_cons_cons]
      cases last : (next :: docs).getLast? with
      | none => simp at last
      | some member => rfl

theorem bytesFrom_append (last : Option DocId) (front back : List DocId) :
    bytesFrom last (front ++ back) =
      bytesFrom last front ++ bytesFrom (lastFrom last front) back := by
  induction front generalizing last with
  | nil => rfl
  | cons doc front induction =>
      rw [lastFrom_cons, List.cons_append, bytesFrom, bytesFrom, induction,
        List.append_assoc]

/-- Every member takes at least one byte. -/
theorem length_le_length_bytesFrom (last : Option DocId) (docs : List DocId) :
    docs.length ≤ (bytesFrom last docs).length := by
  induction docs generalizing last with
  | nil => exact Nat.le_refl 0
  | cons doc docs induction =>
      have rest := induction (some doc)
      have first := Varint.length_encode_pos (gap last doc)
      simp only [bytesFrom, List.length_append, List.length_cons]
      omega

theorem push_above (writer : GapWriter) {doc : DocId}
    (above : ∀ last, writer.last = some last → last < doc) :
    writer.push doc =
      .ok ⟨some doc, writer.bytes ++ Varint.encode (gap writer.last doc)⟩ := by
  unfold GapWriter.push
  cases known : writer.last with
  | none => rfl
  | some last => simp only [if_pos (above last known), gap]

/-- A gap leads back to the member it was made for. -/
theorem member_gap {last : Option DocId} {doc : DocId}
    (above : ∀ known, last = some known → known < doc) :
    member last (gap last doc) = .ok doc := by
  cases last with
  | none =>
      have found := DocId.ofNat?_eq_some.mpr (rfl : doc.val = doc.val)
      simp only [gap, member, found]
  | some known =>
      have less := DocId.lt_iff.mp (above known rfl)
      have sum : doc.val = known.val + (doc.val - known.val) := by omega
      have found := DocId.ofNat?_eq_some.mpr sum
      simp only [gap, member, found]
      rw [if_neg (by omega)]

theorem gap_lt (last : Option DocId) (doc : DocId) :
    gap last doc < 18446744073709551616 := by
  have bound := doc.val_lt
  cases last with
  | none => exact bound
  | some known =>
      simp only [gap]
      omega

theorem readNext_bytes {last : Option DocId} {doc : DocId} (rest : List UInt8)
    (above : ∀ known, last = some known → known < doc) :
    readNext last (Varint.encode (gap last doc) ++ rest) = .ok doc rest := by
  unfold readNext
  rw [Step.bind_ok _ (Varint.read64_encode rest (gap_lt last doc)), member_gap above]
  rfl

end GapList

end Concordance
