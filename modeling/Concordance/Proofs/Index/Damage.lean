import Concordance.Proofs.Checksum
import Concordance.Proofs.Index.Regions

/-!
# Damage to the postings

An index file that opens carries the checksum of its postings.  Whatever happens to four adjacent
bytes of the postings, the header stays and still tiles the file, but the checksum is another one,
so the file is refused.
-/

namespace Concordance

namespace Index

/-- Bytes that were changed somewhere between two places and nowhere else. -/
structure Damaged (bytes damaged : List UInt8) (start stop : Nat) : Prop where
  length : damaged.length = bytes.length
  outside : ∀ position, position < start ∨ stop ≤ position →
    damaged[position]? = bytes[position]?
  changed : damaged ≠ bytes

namespace Damaged

variable {bytes damaged : List UInt8} {start stop : Nat}

theorem take_eq (damage : Damaged bytes damaged start stop) {limit : Nat} (before : limit ≤ start) :
    damaged.take limit = bytes.take limit := by
  apply List.ext_getElem?
  intro position
  rw [List.getElem?_take, List.getElem?_take]
  split
  · exact damage.outside position (.inl (by omega))
  · rfl

theorem drop_eq (damage : Damaged bytes damaged start stop) {place : Nat} (behind : stop ≤ place) :
    damaged.drop place = bytes.drop place := by
  apply List.ext_getElem?
  intro position
  rw [List.getElem?_drop, List.getElem?_drop]
  exact damage.outside _ (.inr (by omega))

/-- A stretch of bytes around the damage is damaged in the same way. -/
theorem stretch (damage : Damaged bytes damaged start stop) {first width : Nat}
    (behind : first ≤ start) (before : stop ≤ first + width) :
    Damaged ((bytes.drop first).take width) ((damaged.drop first).take width)
      (start - first) (stop - first) where
  length := by
    rw [List.length_take, List.length_take, List.length_drop, List.length_drop, damage.length]
  outside := by
    intro position away
    rw [List.getElem?_take, List.getElem?_take]
    split
    · rw [List.getElem?_drop, List.getElem?_drop]
      exact damage.outside _ (by omega)
    · rfl
  changed := by
    intro same
    apply damage.changed
    apply List.ext_getElem?
    intro position
    by_cases away : position < start ∨ stop ≤ position
    · exact damage.outside position away
    · have place : first + (position - first) = position := by omega
      have inside : position - first < width := by omega
      have here := congrArg (fun held : List UInt8 => held[position - first]?) same
      rwa [List.getElem?_take_of_lt inside, List.getElem?_take_of_lt inside, List.getElem?_drop,
        List.getElem?_drop, place] at here

/-- Damage to at most four adjacent bytes shows in the checksum. -/
theorem ofBytes_ne (damage : Damaged bytes damaged start stop) (short : stop ≤ start + 4) :
    Checksum.ofBytes damaged ≠ Checksum.ofBytes bytes := by
  intro same
  have split : ∀ held : List UInt8, held =
      held.take start ++ ((held.drop start).take 4 ++ held.drop (start + 4)) := by
    intro held
    rw [← List.drop_drop, List.take_append_drop, List.take_append_drop]
  have lengths : ((damaged.drop start).take 4).length = ((bytes.drop start).take 4).length := by
    rw [List.length_take, List.length_take, List.length_drop, List.length_drop, damage.length]
  have front := damage.take_eq (Nat.le_refl start)
  have back := damage.drop_eq short
  rw [split damaged, split bytes, front, back] at same
  have middle := Checksum.ofBytes_middle_inj lengths (List.length_take_le _ _) same
  apply damage.changed
  rw [split damaged, split bytes, front, back, middle]

end Damaged

/-- Another byte in one place. -/
theorem damaged_set {bytes : List UInt8} {position : Nat} {value : UInt8}
    (inside : position < bytes.length) (other : bytes[position]? ≠ some value) :
    Damaged bytes (bytes.set position value) position (position + 1) where
  length := List.length_set
  outside := by
    intro place away
    exact List.getElem?_set_ne (by omega)
  changed := by
    intro same
    apply other
    rw [← same, List.getElem?_set_self inside]

/-- Other bytes in the place of some. -/
theorem damaged_append {front old new back : List UInt8} (length : new.length = old.length)
    (other : new ≠ old) :
    Damaged (front ++ (old ++ back)) (front ++ (new ++ back)) front.length
      (front.length + old.length) where
  length := by simp only [List.length_append, length]
  outside := by
    intro position away
    by_cases before : position < front.length
    · rw [List.getElem?_append_left before, List.getElem?_append_left before]
    · have behind : front.length ≤ position := Nat.le_of_not_lt before
      have beyond : old.length ≤ position - front.length := by omega
      rw [List.getElem?_append_right behind, List.getElem?_append_right behind,
        List.getElem?_append_right beyond, List.getElem?_append_right (length ▸ beyond), length]
  changed := fun same => other (List.append_cancel_right (List.append_cancel_left same))

/-! ## Opening a damaged file -/

variable {name : String} {bytes damaged : List UInt8} {format : KeyFormat} {header : Header}
  {start stop : Nat}

/-- The postings in a file with this header. -/
def Header.postingsOf (header : Header) (bytes : List UInt8) : List UInt8 :=
  (bytes.drop size).take header.postingsLength.toNat

/-- The checksum in the header is that of the postings. -/
def Header.Vouches (header : Header) (bytes : List UInt8) : Prop :=
  UInt32.ofBitVec (Checksum.ofBytes (header.postingsOf bytes)) = header.checksum

theorem open?_mismatch (tiles : header.Tiles bytes) (decoded : Header.decode bytes = .ok header)
    (mismatch : ¬header.Vouches bytes) :
    open? ⟨name, some bytes⟩ true format = .error (.checksumMismatch name) := by
  unfold open?
  dsimp only
  rw [pure_bind, decoded, Step.ok_bind, tiles.postings, Step.ok_bind, tiles.keys, Step.ok_bind]
  dsimp only
  rw [if_neg (not_not_intro rfl), Nat.add_sub_cancel_left, Bool.true_and,
    if_pos (by simpa [Header.Vouches, Header.postingsOf] using mismatch)]
  rfl

/-- The header of a file that opens with a look at the checksum vouches for the postings. -/
theorem vouches_of_open? {index : Index}
    (opened : open? ⟨name, some bytes⟩ true format = .ok index) :
    index.header.Vouches bytes := by
  obtain ⟨decoded, tiles, _⟩ := tiled_of_open? opened
  by_contra mismatch
  cases opened.symm.trans (open?_mismatch tiles decoded mismatch)

theorem Header.decode_congr (lengths : damaged.length = bytes.length)
    (front : damaged.take size = bytes.take size) : decode damaged = decode bytes := by
  unfold decode
  rw [lengths, front]

theorem Header.Tiles.congr (tiles : header.Tiles bytes) (lengths : damaged.length = bytes.length)
    (front : damaged.take size = bytes.take size) : header.Tiles damaged :=
  ⟨front ▸ tiles.front, tiles.postings, lengths ▸ tiles.keys⟩

/-- Damage to at most four adjacent bytes of the postings has the file refused. -/
theorem refused_of_damaged {index : Index}
    (opened : open? ⟨name, some bytes⟩ true format = .ok index)
    (damage : Damaged bytes damaged start stop) (behind : Header.size ≤ start)
    (before : stop ≤ Header.size + index.header.postingsLength.toNat) (short : stop ≤ start + 4) :
    open? ⟨name, some damaged⟩ true format = .error (.checksumMismatch name) := by
  obtain ⟨decoded, tiles, _⟩ := tiled_of_open? opened
  have vouches := vouches_of_open? opened
  have front := damage.take_eq behind
  have kept := Header.decode_congr damage.length front
  refine open?_mismatch (tiles.congr damage.length front) (kept.trans decoded) fun again => ?_
  have differs := (damage.stretch behind before).ofBytes_ne (by omega)
  exact differs (UInt32.ofBitVec.inj (again.trans vouches.symm))

/-- A file that opens with a look at the checksum is refused as corrupt when one byte of its
postings is any other one, or when up to four adjacent bytes of them are changed in any way. -/
theorem damaged_refused {index : Index}
    (opened : open? ⟨name, some bytes⟩ true format = .ok index) :
    let postingsStop := Header.size + index.header.postingsLength.toNat
    (∀ position value, Header.size ≤ position → position < postingsStop →
      bytes[position]? ≠ some value →
      open? ⟨name, some (bytes.set position value)⟩ true format =
        .error (.checksumMismatch name)) ∧
    (∀ start stop damaged, Header.size ≤ start → stop ≤ postingsStop → stop ≤ start + 4 →
      Damaged bytes damaged start stop →
      open? ⟨name, some damaged⟩ true format = .error (.checksumMismatch name)) ∧
    (Error.checksumMismatch name).kind = .corruptIndex := by
  intro postingsStop
  refine ⟨fun position value behind before other => ?_,
    fun start stop damaged behind before short damage =>
      refused_of_damaged opened damage behind before short, rfl⟩
  have inside : position < bytes.length :=
    Nat.lt_of_lt_of_le before (tiled_of_open? opened).2.1.bounds.1
  exact refused_of_damaged opened (damaged_set inside other) behind before (by omega)

/-- Five bytes of postings, of which the third is changed alone, and the last four together. -/
theorem damaged_refused_burst :
    let keys : Dictionary := ⟨[([97], 0)]⟩
    let header := Header.ofRegions [10, 11, 12, 13, 14] keys.encode keys.size Collection.empty
    let bytes := header.encode ++ [10, 11, 12, 13, 14] ++ keys.encode
    let damaged := header.encode ++ [10, 0, 12, 13, 255] ++ keys.encode
    (∃ index, open? ⟨"index", some bytes⟩ true = .ok index ∧
      index.header.postingsLength.toNat = 5) ∧
    bytes[62]? = some 12 ∧
    open? ⟨"index", some (bytes.set 62 13)⟩ true = .error (.checksumMismatch "index") ∧
    Damaged bytes damaged 61 65 ∧
    open? ⟨"index", some damaged⟩ true = .error (.checksumMismatch "index") := by
  intro keys header bytes damaged
  have ascending : Dictionary.Ascending keys.entries := Dictionary.isAscending_iff.mp (by decide)
  have offsets : ∀ entry ∈ keys.entries, entry.2 < Header.offsetLimit := by decide
  have decoded : KeyFormat.plain.decode keys.encode = .ok keys :=
    KeyFormat.plain_faithful.decode_encode keys ascending offsets (by decide)
  have opened : open? ⟨"index", some bytes⟩ true =
      .ok ⟨"index", header, [10, 11, 12, 13, 14], keys⟩ :=
    open?_regions decoded (by decide) (by decide) "index" true
  have length : header.postingsLength.toNat = 5 := by decide
  have front : (header.encode ++ [10]).length = 61 := by
    rw [List.length_append, header.length_encode]
    rfl
  have damage : Damaged bytes damaged 61 65 := by
    have changes := @damaged_append (header.encode ++ [10]) [11, 12, 13, 14] [0, 12, 13, 255]
      keys.encode rfl (by decide)
    rw [front] at changes
    simpa [bytes, damaged] using changes
  have third : bytes[62]? = some 12 := by
    have behind : header.encode.length ≤ 62 := by
      rw [header.length_encode]
      decide
    simp only [bytes, List.append_assoc]
    rw [List.getElem?_append_right behind, header.length_encode]
    rfl
  clear_value bytes damaged header
  obtain ⟨alone, together, _⟩ := damaged_refused opened
  rw [length] at alone together
  refine ⟨⟨_, opened, length⟩, third, ?_, damage, ?_⟩
  · exact alone 62 13 (by decide) (by decide) (by rw [third]; decide)
  · exact together 61 65 damaged (by decide) (by decide) (by decide) damage

end Index

end Concordance
