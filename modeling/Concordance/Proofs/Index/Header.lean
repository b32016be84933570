import Mathlib
import Concordance.Index.Header
import Concordance.Proofs.Step

/-!
# Headers read back

The words of a header are read back from its bytes, so that a file starts with
the header that was written.
-/

namespace Concordance

namespace Index

theorem length_littleEndian (width number : Nat) : (littleEndian width number).length = width := by
  induction width generalizing number with
  | zero => rfl
  | succ width induction => rw [littleEndian, List.length_cons, induction]

/-- A number that fits its width is read back. -/
theorem ofLittleEndian_littleEndian {width number : Nat} (bound : number < 256 ^ width) :
    ofLittleEndian (littleEndian width number) = number := by
  induction width generalizing number with
  | zero =>
      have zero : number = 0 := by simpa using bound
      rw [zero]
      rfl
  | succ width induction =>
      have high : number / 256 < 256 ^ width := by
        rw [Nat.pow_succ] at bound
        omega
      have low : (UInt8.ofNat (number % 256)).toNat = number % 256 := by
        rw [UInt8.toNat_ofNat']
        exact Nat.mod_eq_of_lt (by omega)
      rw [littleEndian, ofLittleEndian, low, induction high]
      omega

/-- A number that was read from bytes has these bytes. -/
theorem littleEndian_ofLittleEndian (bytes : List UInt8) :
    littleEndian bytes.length (ofLittleEndian bytes) = bytes := by
  induction bytes with
  | nil => rfl
  | cons byte bytes induction =>
      have small := byte.toNat_lt
      have low : (byte.toNat + 256 * ofLittleEndian bytes) % 256 = byte.toNat := by omega
      have high : (byte.toNat + 256 * ofLittleEndian bytes) / 256 = ofLittleEndian bytes := by
        omega
      rw [ofLittleEndian, List.length_cons, littleEndian, low, high, induction,
        UInt8.ofNat_toNat]

theorem ofLittleEndian_lt (bytes : List UInt8) : ofLittleEndian bytes < 256 ^ bytes.length := by
  induction bytes with
  | nil => exact Nat.one_pos
  | cons byte bytes induction =>
      have small := byte.toNat_lt
      rw [ofLittleEndian, List.length_cons, Nat.pow_succ]
      omega

/-- A word that is read somewhere in a file has the bytes that stand there. -/
theorem littleEndian_window {bytes : List UInt8} {offset width : Nat}
    (inside : offset + width ≤ bytes.length) :
    ofLittleEndian ((bytes.drop offset).take width) < 256 ^ width ∧
      littleEndian width (ofLittleEndian ((bytes.drop offset).take width)) =
        (bytes.drop offset).take width := by
  have length : ((bytes.drop offset).take width).length = width := by
    rw [List.length_take, List.length_drop]
    omega
  have small := ofLittleEndian_lt ((bytes.drop offset).take width)
  have whole := littleEndian_ofLittleEndian ((bytes.drop offset).take width)
  rw [length] at small whole
  exact ⟨small, whole⟩

theorem word32_littleEndian (word : UInt32) :
    UInt32.ofNat (ofLittleEndian (littleEndian 4 word.toNat)) = word := by
  rw [ofLittleEndian_littleEndian word.toNat_lt, UInt32.ofNat_toNat]

theorem word64_littleEndian (word : UInt64) :
    UInt64.ofNat (ofLittleEndian (littleEndian 8 word.toNat)) = word := by
  rw [ofLittleEndian_littleEndian word.toNat_lt, UInt64.ofNat_toNat]

theorem toNat_toUInt64 {number : Nat} (bound : number < Header.offsetLimit) :
    number.toUInt64.toNat = number := Nat.mod_eq_of_lt bound

namespace Header

theorem length_encode (header : Header) : header.encode.length = size := by
  simp [encode, length_littleEndian, size]

/-- Each field of a header stands at its offset. -/
theorem ofBytes_encode (header : Header) : ofBytes header.encode = header := by
  simp [ofBytes, word32, word64, encode, List.drop_append, length_littleEndian,
    List.drop_of_length_le, List.take_of_length_le, word32_littleEndian, word64_littleEndian]

theorem encode_word32 {bytes : List UInt8} {offset : Nat} (inside : offset + 4 ≤ bytes.length) :
    littleEndian 4 (word32 bytes offset).toNat = (bytes.drop offset).take 4 := by
  obtain ⟨small, whole⟩ := littleEndian_window inside
  rw [word32, UInt32.toNat_ofNat', Nat.mod_eq_of_lt (by simpa using small), whole]

theorem encode_word64 {bytes : List UInt8} {offset : Nat} (inside : offset + 8 ≤ bytes.length) :
    littleEndian 8 (word64 bytes offset).toNat = (bytes.drop offset).take 8 := by
  obtain ⟨small, whole⟩ := littleEndian_window inside
  rw [word64, UInt64.toNat_ofNat', Nat.mod_eq_of_lt (by simpa using small), whole]

/-- The fields of a header are all that its bytes say. -/
theorem encode_ofBytes {bytes : List UInt8} (length : bytes.length = size) :
    (ofBytes bytes).encode = bytes := by
  have bound : bytes.length = 60 := length
  unfold encode ofBytes
  rw [encode_word32 (by omega), encode_word32 (by omega), encode_word64 (by omega),
    encode_word64 (by omega), encode_word64 (by omega), encode_word64 (by omega),
    encode_word32 (by omega), encode_word64 (by omega), encode_word64 (by omega), List.drop_zero]
  simp only [← List.take_add]
  exact List.take_of_length_le (by omega)

/-- A file that starts with a header of this format has that header. -/
theorem decode_append {header : Header} (magic : header.magic = fileMagic)
    (version : header.version = currentVersion) (rest : List UInt8) :
    decode (header.encode ++ rest) = .ok header := by
  have front : (header.encode ++ rest).take size = header.encode :=
    List.take_left' header.length_encode
  have long : ¬(header.encode ++ rest).length < size := by
    rw [List.length_append, header.length_encode]
    omega
  unfold decode
  rw [if_neg long]
  dsimp only
  rw [front, ofBytes_encode, if_neg (not_not_intro magic), if_neg (not_not_intro version)]
  rfl

/-! ## The regions of a file -/

variable {postings keys : List UInt8}

theorem ofRegions_keyCount {count : Nat} (bound : count < offsetLimit) (collection : Collection) :
    (ofRegions postings keys count collection).keyCount.toNat = count := toNat_toUInt64 bound

theorem ofRegions_postingsLength (bound : postings.length < offsetLimit) (count : Nat)
    (collection : Collection) :
    (ofRegions postings keys count collection).postingsLength.toNat = postings.length :=
  toNat_toUInt64 bound

theorem ofRegions_postingsRange (bound : size + postings.length < offsetLimit) (count : Nat)
    (collection : Collection) :
    (ofRegions postings keys count collection).postingsRange =
      .ok (size, size + postings.length) := by
  rw [postingsRange, ofRegions_postingsLength (by omega), if_pos bound]

theorem ofRegions_keysRange (bound : size + postings.length + keys.length < offsetLimit)
    (count : Nat) (collection : Collection) :
    (ofRegions postings keys count collection).keysRange =
      .ok (size + postings.length, size + postings.length + keys.length) := by
  have offset : (ofRegions postings keys count collection).keysOffset.toNat =
      size + postings.length := toNat_toUInt64 (by omega)
  have length : (ofRegions postings keys count collection).keysLength.toNat = keys.length :=
    toNat_toUInt64 (by omega)
  rw [keysRange, ofRegions_postingsLength (by omega), offset, length,
    if_neg (not_not_intro rfl), if_pos bound]

theorem ofRegions_collection (count : Nat) {collection : Collection}
    (length : collection.length < offsetLimit) (documents : collection.documents < offsetLimit) :
    (ofRegions postings keys count collection).collection = collection := by
  have first : (ofRegions postings keys count collection).collectionLength.toNat =
      collection.length := toNat_toUInt64 length
  have second : (ofRegions postings keys count collection).documentCount.toNat =
      collection.documents := toNat_toUInt64 documents
  rw [Header.collection, first, second]

end Header

end Index

end Concordance
