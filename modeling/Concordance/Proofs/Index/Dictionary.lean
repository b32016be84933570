import Concordance.Index.Dictionary
import Concordance.Proofs.Index.Header

/-!
# Ordered dictionaries

Of the format in which the keys are kept, only this is used: a dictionary whose
keys ascend is read back from its bytes.  The format of this library does so.
Looking up a key and the key behind it then sees the entries in their order.
-/

namespace Concordance

namespace Index

namespace Dictionary

/-- Entries whose keys ascend. -/
def Ascending (entries : List (Key × Nat)) : Prop :=
  entries.Pairwise fun first second => first.1 < second.1

theorem isAscending_iff {entries : List (Key × Nat)} :
    isAscending entries = true ↔ Ascending entries := by
  induction entries with
  | nil => exact ⟨fun _ => .nil, fun _ => rfl⟩
  | cons first entries induction =>
      cases entries with
      | nil => exact ⟨fun _ => List.pairwise_singleton _ _, fun _ => rfl⟩
      | cons second later =>
          rw [isAscending, Bool.and_eq_true, decide_eq_true_eq, induction]
          constructor
          · rintro ⟨less, ascending⟩
            refine List.pairwise_cons.mpr ⟨?_, ascending⟩
            refine List.forall_mem_cons.mpr ⟨less, fun entry member => ?_⟩
            exact List.lt_trans less ((List.pairwise_cons.mp ascending).1 entry member)
          · intro ascending
            obtain ⟨above, rest⟩ := List.pairwise_cons.mp ascending
            exact ⟨above second List.mem_cons_self, rest⟩

end Dictionary

/-- A format that reads back every dictionary whose keys ascend and whose numbers
and length are words of 64 bits. -/
structure KeyFormat.Faithful (format : KeyFormat) : Prop where
  decode_encode : ∀ dictionary : Dictionary, Dictionary.Ascending dictionary.entries →
    (∀ entry ∈ dictionary.entries, entry.2 < Header.offsetLimit) →
    (format.encode dictionary).length < Header.offsetLimit →
    format.decode (format.encode dictionary) = .ok dictionary

namespace Dictionary

/-! ## Reading entries -/

theorem readBytes_append (front back : List UInt8) :
    readBytes front.length (front ++ back) = .ok front back := by
  unfold readBytes
  rw [Step.bind_ok _ (Step.get_run _)]
  simp only [List.take_left, List.drop_left, Nat.lt_irrefl, if_false]
  rfl

theorem readWord_append {number : Nat} (bound : number < Header.offsetLimit)
    (back : List UInt8) : readWord (encodeWord number ++ back) = .ok number back := by
  have word := length_littleEndian wordSize number
  unfold readWord
  rw [Step.bind_ok _ (by
    have taken := readBytes_append (encodeWord number) back
    rw [encodeWord, word] at taken
    exact taken)]
  rw [ofLittleEndian_littleEndian (by simpa [Header.offsetLimit, wordSize] using bound)]
  rfl

theorem length_encodeEntry (entry : Key × Nat) :
    (encodeEntry entry).length = entry.1.length + 16 := by
  simp [encodeEntry, encodeWord, length_littleEndian, wordSize]
  omega

theorem readEntries_append {entries : List (Key × Nat)} (found : Array (Key × Nat))
    (keys : ∀ entry ∈ entries, entry.1.length < Header.offsetLimit)
    (offsets : ∀ entry ∈ entries, entry.2 < Header.offsetLimit) (back : List UInt8) :
    readEntries entries.length found (entries.flatMap encodeEntry ++ back) =
      .ok (found ++ entries.toArray) back := by
  induction entries generalizing found with
  | nil => simp [readEntries]
  | cons entry entries induction =>
      obtain ⟨key, laterKeys⟩ := List.forall_mem_cons.mp keys
      obtain ⟨offset, laterOffsets⟩ := List.forall_mem_cons.mp offsets
      rw [List.length_cons, readEntries, List.flatMap_cons]
      simp only [encodeEntry, List.append_assoc]
      rw [Step.bind_ok _ (readWord_append key _), Step.bind_ok _ (readBytes_append _ _),
        Step.bind_ok _ (readWord_append offset _)]
      rw [induction _ laterKeys laterOffsets]
      simp

theorem length_entries (entries : List (Key × Nat)) :
    entries.length ≤ (entries.flatMap encodeEntry).length ∧
      ∀ entry ∈ entries, entry.1.length ≤ (entries.flatMap encodeEntry).length := by
  induction entries with
  | nil => exact ⟨Nat.le_refl _, fun _ impossible => nomatch impossible⟩
  | cons first entries induction =>
      have here := length_encodeEntry first
      obtain ⟨count, keys⟩ := induction
      rw [List.flatMap_cons, List.length_append, List.length_cons]
      refine ⟨by omega, List.forall_mem_cons.mpr ⟨by omega, fun entry member => ?_⟩⟩
      have key := keys entry member
      omega

theorem decode_encode {dictionary : Dictionary} (ascending : Ascending dictionary.entries)
    (offsets : ∀ entry ∈ dictionary.entries, entry.2 < Header.offsetLimit)
    (bound : dictionary.encode.length < Header.offsetLimit) :
    decode dictionary.encode = .ok dictionary := by
  obtain ⟨count, keys⟩ := length_entries dictionary.entries
  have body : (dictionary.entries.flatMap encodeEntry).length ≤ dictionary.encode.length := by
    simp only [encode, List.length_append]
    omega
  have listed := readEntries_append #[] (fun entry member =>
    Nat.lt_of_le_of_lt (Nat.le_trans (keys entry member) body) bound) offsets []
  rw [List.append_nil, Array.empty_append] at listed
  have sorted : isAscending dictionary.entries = true := isAscending_iff.mpr ascending
  have whole : read dictionary.encode = .ok dictionary [] := by
    unfold read encode size
    simp only [List.append_assoc]
    rw [Step.bind_ok _ (readWord_append (by decide) _), if_neg (not_not_intro rfl)]
    rw [Step.bind_ok _ (readWord_append (Nat.lt_of_le_of_lt (Nat.le_trans count body) bound) _),
      Step.bind_ok _ (readWord_append (Nat.lt_of_le_of_lt body bound) _),
      Step.bind_ok _ (Step.get_run _), if_neg (not_not_intro rfl)]
    rw [Step.bind_ok _ listed, Step.bind_ok _ (Step.get_run _)]
    simp [sorted]
  exact Step.evaluate_ok whole

/-! ## Looking up keys -/

variable {front back : List (Key × Nat)} {key : Key} {offset : Nat}

/-- The entry of a key is found between those before it and those behind it. -/
theorem get?_middle (ascending : Ascending (front ++ (key, offset) :: back)) :
    get? ⟨front ++ (key, offset) :: back⟩ key = some offset := by
  obtain ⟨_, _, across⟩ := List.pairwise_append.mp ascending
  have before : front.lookup key = none := by
    apply List.lookup_eq_none_iff.mpr
    intro entry member
    have less := across entry member (key, offset) List.mem_cons_self
    have different : key ≠ entry.1 := fun same => List.lt_irrefl _ (same ▸ less : key < key)
    simpa using different
  rw [get?, List.lookup_append, before, Option.none_or, List.lookup_cons_self]

theorem get?_eq_none {entries : List (Key × Nat)} (absent : key ∉ entries.map Prod.fst) :
    get? ⟨entries⟩ key = none := by
  apply List.lookup_eq_none_iff.mpr
  intro entry member
  have different : key ≠ entry.1 := fun same => absent (same ▸ List.mem_map_of_mem member)
  simpa using different

theorem after?_middle (ascending : Ascending (front ++ (key, offset) :: back)) :
    after? ⟨front ++ (key, offset) :: back⟩ key = back.head? := by
  obtain ⟨_, later, across⟩ := List.pairwise_append.mp ascending
  have before : (front ++ [(key, offset)]).find? (fun entry => decide (key < entry.1)) = none := by
    refine List.find?_eq_none.mpr fun entry member above => ?_
    have less := of_decide_eq_true above
    rcases List.mem_append.mp member with inFront | last
    · exact List.lt_asymm less (across entry inFront (key, offset) List.mem_cons_self)
    · rw [List.mem_singleton.mp last] at less
      exact List.lt_irrefl _ less
  have regrouped : front ++ (key, offset) :: back = (front ++ [(key, offset)]) ++ back := by simp
  rw [after?, regrouped, List.find?_append, before, Option.none_or]
  cases back with
  | nil => rfl
  | cons next back =>
      have above := (List.pairwise_cons.mp later).1 next List.mem_cons_self
      exact List.find?_cons_of_pos (decide_eq_true above)

end Dictionary

/-- The format of this library reads back what it wrote. -/
theorem KeyFormat.plain_faithful : KeyFormat.plain.Faithful := by
  constructor
  intro dictionary ascending offsets bound
  simp only [KeyFormat.plain] at bound ⊢
  exact Dictionary.decode_encode ascending offsets bound

end Index

end Concordance
