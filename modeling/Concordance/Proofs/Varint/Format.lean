import Concordance.Proofs.Varint

/-!
# The bytes that are a number

A reader that meets any bytes finds a number in front of them exactly if one of the first ten has
no top bit, and the tenth of them, if it is the first such byte, holds no more than one bit.  The
number is spelled by the seven low bits of each byte up to there.  One spelling of a number is the
one that is written; any other ends in an empty group and is longer.
-/

namespace Concordance

namespace Varint

/-! ## Spelling -/

/-- Whether a byte is the last of a number: its top bit is clear. -/
def closes (byte : UInt8) : Bool := byte.toNat < 128

/-- The number that the low bits of the first so many bytes spell. -/
def spelled (bytes : List UInt8) (count : Nat) : Nat :=
  ∑ place ∈ Finset.range count, (bytes.getD place 0).toNat % 128 * 128 ^ place

/-- The first byte without a top bit, where it can be the last of a number that may take some
groups, the last of which holds one bit. -/
structure Closing (groups : Nat) (bytes : List UInt8) (last : Nat) : Prop where
  first : bytes.findIdx? closes = some last
  few : last < groups
  bit : last + 1 = groups → (bytes.getD last 0).toNat ≤ 1

variable {bytes rest : List UInt8} {byte : UInt8} {groups number taken last count : Nat}

theorem spelled_cons (byte : UInt8) (bytes : List UInt8) (count : Nat) :
    spelled (byte :: bytes) (count + 1) = byte.toNat % 128 + 128 * spelled bytes count := by
  unfold spelled
  rw [Finset.sum_range_succ', Finset.mul_sum, Nat.add_comm]
  congr 1
  · simp
  · refine Finset.sum_congr rfl fun place _ => ?_
    rw [List.getD_cons_succ, Nat.pow_succ]
    ring

theorem spelled_succ (bytes : List UInt8) (count : Nat) :
    spelled bytes (count + 1) =
      spelled bytes count + (bytes.getD count 0).toNat % 128 * 128 ^ count :=
  Finset.sum_range_succ _ count

theorem spelled_lt (bytes : List UInt8) (count : Nat) : spelled bytes count < 128 ^ count := by
  induction count with
  | zero => exact Nat.one_pos
  | succ count induction =>
      have group : (bytes.getD count 0).toNat % 128 ≤ 127 := by omega
      have scaled := Nat.mul_le_mul_right (128 ^ count) group
      rw [spelled_succ, Nat.pow_succ]
      omega

theorem findIdx?_closes_cons (byte : UInt8) (bytes : List UInt8) :
    (byte :: bytes).findIdx? closes =
      if byte.toNat < 128 then some 0 else (bytes.findIdx? closes).map (· + 1) := by
  rw [List.findIdx?_cons]
  simp only [closes, decide_eq_true_eq]

theorem closing_here (final : byte.toNat < 128) :
    Closing (groups + 1) (byte :: bytes) last ↔ last = 0 ∧ (groups = 0 → byte.toNat ≤ 1) := by
  constructor
  · rintro ⟨first, _, bit⟩
    rw [findIdx?_closes_cons, if_pos final] at first
    cases first
    exact ⟨rfl, fun single => bit (by rw [single])⟩
  · rintro ⟨rfl, bit⟩
    refine ⟨?_, Nat.succ_pos groups, fun single => bit (by omega)⟩
    rw [findIdx?_closes_cons, if_pos final]

theorem closing_later (more : ¬byte.toNat < 128) :
    Closing (groups + 1) (byte :: bytes) last ↔
      ∃ before, Closing groups bytes before ∧ last = before + 1 := by
  constructor
  · rintro ⟨first, few, bit⟩
    rw [findIdx?_closes_cons, if_neg more] at first
    obtain ⟨before, known, rfl⟩ := Option.map_eq_some_iff.mp first
    exact ⟨before, ⟨known, by omega, fun single => bit (by omega)⟩, rfl⟩
  · rintro ⟨before, ⟨first, few, bit⟩, rfl⟩
    refine ⟨?_, by omega, fun single => bit (by omega)⟩
    rw [findIdx?_closes_cons, if_neg more, first]
    rfl

theorem closes_at (ends : bytes.findIdx? closes = some last) :
    last < bytes.length ∧ (bytes.getD last 0).toNat < 128 := by
  obtain ⟨inside, low, _⟩ := List.findIdx?_eq_some_iff_getElem.mp ends
  refine ⟨inside, ?_⟩
  rw [List.getD_eq_getElem _ _ inside]
  simpa [closes] using low

/-! ## Taking a number off -/

theorem takeGroups_here (final : byte.toNat < 128) :
    takeGroups (groups + 1) (byte :: bytes) = .ok (number, rest) ↔
      (groups = 0 → byte.toNat ≤ 1) ∧ number = byte.toNat ∧ rest = bytes := by
  rw [takeGroups, Nat.mod_eq_of_lt final, if_pos final]
  by_cases wide : groups = 0 ∧ 1 < byte.toNat
  · rw [if_pos wide]
    constructor
    · intro impossible
      cases impossible
    · rintro ⟨bit, _⟩
      exact absurd (bit wide.1) (by omega)
  · rw [if_neg wide]
    simp only [Except.ok.injEq, Prod.mk.injEq]
    constructor
    · rintro ⟨rfl, rfl⟩
      exact ⟨fun single => by omega, rfl, rfl⟩
    · rintro ⟨_, rfl, rfl⟩
      exact ⟨rfl, rfl⟩

/-- A byte with a top bit is taken if the bytes behind it are, with one group less. -/
theorem takeGroups_later (more : ¬byte.toNat < 128) :
    takeGroups (groups + 1) (byte :: bytes) = .ok (number, rest) ↔
      ∃ high, takeGroups groups bytes = .ok (high, rest) ∧
        number = byte.toNat % 128 + 128 * high := by
  rw [takeGroups, if_neg more]
  cases inner : takeGroups groups bytes with
  | error cause =>
      constructor
      · intro impossible
        split at impossible <;> cases impossible
      · rintro ⟨_, impossible, _⟩
        cases impossible
  | ok pair =>
      obtain ⟨high, behind⟩ := pair
      have occupied : ¬(groups = 0 ∧ 1 < byte.toNat % 128) := by
        rintro ⟨rfl, _⟩
        cases inner
      rw [if_neg occupied]
      simp only [Except.ok.injEq, Prod.mk.injEq]
      constructor
      · rintro ⟨rfl, rfl⟩
        exact ⟨high, ⟨rfl, rfl⟩, rfl⟩
      · rintro ⟨_, ⟨rfl, rfl⟩, rfl⟩
        exact ⟨rfl, rfl⟩

theorem takeGroups_eq_ok :
    takeGroups groups bytes = .ok (number, rest) ↔
      ∃ last, Closing groups bytes last ∧ number = spelled bytes (last + 1) ∧
        rest = bytes.drop (last + 1) := by
  induction groups generalizing bytes number with
  | zero =>
      constructor
      · intro impossible
        cases impossible
      · rintro ⟨last, closing, _⟩
        exact absurd closing.few (Nat.not_lt_zero last)
  | succ groups induction =>
      cases bytes with
      | nil =>
          constructor
          · intro impossible
            cases impossible
          · rintro ⟨last, closing, _⟩
            cases closing.first
      | cons byte bytes =>
          by_cases final : byte.toNat < 128
          · have alone : spelled (byte :: bytes) 1 = byte.toNat := by
              rw [spelled_cons, Nat.mod_eq_of_lt final]
              rfl
            rw [takeGroups_here final]
            simp only [closing_here final]
            constructor
            · rintro ⟨bit, rfl, rfl⟩
              exact ⟨0, ⟨rfl, bit⟩, alone.symm, rfl⟩
            · rintro ⟨_, ⟨rfl, bit⟩, rfl, rfl⟩
              exact ⟨bit, alone, rfl⟩
          · rw [takeGroups_later final]
            simp only [closing_later final, induction]
            constructor
            · rintro ⟨_, ⟨last, closing, rfl, rfl⟩, rfl⟩
              exact ⟨last + 1, ⟨last, closing, rfl⟩, (spelled_cons ..).symm, rfl⟩
            · rintro ⟨_, ⟨last, closing, rfl⟩, rfl, rfl⟩
              exact ⟨_, ⟨last, closing, rfl, rfl⟩, spelled_cons ..⟩

/-! ## Spelling a number again -/

theorem spelled_pos (ends : bytes.findIdx? closes = some last) (full : bytes.getD last 0 ≠ 0) :
    0 < spelled bytes (last + 1) := by
  have low := (closes_at ends).2
  have some? : 0 < (bytes.getD last 0).toNat := by
    apply Nat.pos_of_ne_zero
    intro zero
    exact full (UInt8.toNat_inj.mp zero)
  have place : 0 < 128 ^ last := Nat.pow_pos (by omega)
  rw [spelled_succ, Nat.mod_eq_of_lt low]
  exact Nat.add_pos_right _ (Nat.mul_pos some? place)

/-- A group in front of others that are not all empty is written as it was read. -/
theorem encode_group (more : ¬byte.toNat < 128) {high : Nat} (positive : 0 < high) :
    encode (byte.toNat % 128 + 128 * high) = byte :: encode high := by
  have bound := byte.toNat_lt
  have low : (byte.toNat % 128 + 128 * high) % 128 + 128 = byte.toNat := by omega
  have rest : (byte.toNat % 128 + 128 * high) / 128 = high := by omega
  rw [encode_large (by omega), low, rest, UInt8.ofNat_toNat]

/-- Where the last group is not empty, or the only one, a number is written as it was read. -/
theorem encode_spelled (ends : bytes.findIdx? closes = some last)
    (full : last = 0 ∨ bytes.getD last 0 ≠ 0) :
    encode (spelled bytes (last + 1)) = bytes.take (last + 1) := by
  induction bytes generalizing last with
  | nil => cases ends
  | cons byte bytes induction =>
      rw [findIdx?_closes_cons] at ends
      by_cases final : byte.toNat < 128
      · rw [if_pos final] at ends
        cases ends
        rw [spelled_cons, Nat.mod_eq_of_lt final]
        simp [spelled, encode_small final]
      · rw [if_neg final] at ends
        obtain ⟨before, known, rfl⟩ := Option.map_eq_some_iff.mp ends
        have occupied : bytes.getD before 0 ≠ 0 := by simpa using full
        rw [spelled_cons, encode_group final (spelled_pos known occupied),
          induction known (.inr occupied)]
        rfl

/-- Where the last group is empty, a number is written in less bytes than it was read from. -/
theorem length_encode_spelled_lt (later : last ≠ 0) (blank : bytes.getD last 0 = 0) :
    (encode (spelled bytes (last + 1))).length < last + 1 := by
  obtain ⟨before, rfl⟩ := Nat.exists_eq_succ_of_ne_zero later
  have small := spelled_lt bytes (before + 1)
  have same : spelled bytes (before + 1 + 1) = spelled bytes (before + 1) := by
    rw [spelled_succ, blank]
    simp
  rw [same]
  exact Nat.lt_succ_of_le (length_encode_le small)

/-- Nothing is longer written again than it was read. -/
theorem length_encode_of_take (taken : take64 bytes = .ok (number, rest)) :
    (encode number).length + rest.length ≤ bytes.length := by
  obtain ⟨last, closing, rfl, rfl⟩ := takeGroups_eq_ok.mp taken
  have short := length_encode_le (spelled_lt bytes (last + 1))
  have inside := (closes_at closing.first).1
  rw [List.length_drop]
  omega

/-! ## Numbers of two sizes -/

/-- The sizes of number that are read. -/
inductive Size where
  | word32
  | word64

namespace Size

/-- What the numbers of a size lie below. -/
def bound : Size → Nat
  | word32 => 4294967296
  | word64 => 18446744073709551616

def take : Size → List UInt8 → Except Error (Nat × List UInt8)
  | word32 => take32
  | word64 => take64

def decode : Size → List UInt8 → Except Error (Nat × Nat)
  | word32 => decode32
  | word64 => decode64

def read : Size → Step (List UInt8) Nat
  | word32 => read32
  | word64 => read64

end Size

variable {size : Size} {cause : Error}

theorem take_eq_ok : size.take bytes = .ok (number, rest) ↔
    take64 bytes = .ok (number, rest) ∧ number < size.bound := by
  cases size with
  | word64 => exact ⟨fun taken => ⟨taken, (take64_ok taken).2.2⟩, And.left⟩
  | word32 =>
      change take32 bytes = _ ↔ _
      unfold take32
      constructor
      · intro taken
        obtain ⟨⟨found, behind⟩, known, taken⟩ := Step.ok_of_bind taken
        dsimp only at taken
        split at taken
        · rename_i fits
          cases taken
          exact ⟨known, fits⟩
        · cases taken
      · rintro ⟨known, fits⟩
        rw [known, Step.ok_bind]
        exact if_pos fits

theorem take_error (refused : size.take bytes = .error cause) : cause.kind = .corruptIndex := by
  cases size with
  | word64 => exact takeGroups_error refused
  | word32 =>
      have run : read32 bytes = .error cause bytes := by
        change take32 bytes = _ at refused
        simp only [read32, reading, refused]
      exact (read32_ends bytes).of_error run

theorem decode_bind (size : Size) (bytes : List UInt8) :
    size.decode bytes =
      size.take bytes >>= fun pair => pure (pair.1, bytes.length - pair.2.length) := by
  cases size <;> rfl

theorem decode_error (refused : size.decode bytes = .error cause) : cause.kind = .corruptIndex := by
  rw [decode_bind] at refused
  cases taken : size.take bytes with
  | ok pair =>
      rw [taken] at refused
      cases refused
  | error other =>
      rw [taken] at refused
      cases refused
      exact take_error taken

theorem decode_eq_ok : size.decode bytes = .ok (number, taken) ↔
    ∃ last, Closing maxGroups bytes last ∧ taken = last + 1 ∧
      number = spelled bytes (last + 1) ∧ number < size.bound := by
  rw [decode_bind]
  constructor
  · intro run
    obtain ⟨⟨found, behind⟩, known, run⟩ := Step.ok_of_bind run
    cases run
    obtain ⟨whole, fits⟩ := take_eq_ok.mp known
    obtain ⟨last, closing, same, rfl⟩ := takeGroups_eq_ok.mp whole
    have inside := (closes_at closing.first).1
    refine ⟨last, closing, ?_, same, fits⟩
    rw [List.length_drop]
    omega
  · rintro ⟨last, closing, rfl, same, fits⟩
    have whole : take64 bytes = .ok (number, bytes.drop (last + 1)) :=
      takeGroups_eq_ok.mpr ⟨last, closing, same, rfl⟩
    have inside := (closes_at closing.first).1
    have length : bytes.length - (bytes.drop (last + 1)).length = last + 1 := by
      rw [List.length_drop]
      omega
    rw [take_eq_ok.mpr ⟨whole, fits⟩, Step.ok_bind, length]
    rfl

theorem spelled_bound (closing : Closing maxGroups bytes last) :
    spelled bytes (last + 1) < Size.word64.bound := by
  have whole : take64 bytes = .ok (spelled bytes (last + 1), bytes.drop (last + 1)) :=
    takeGroups_eq_ok.mpr ⟨last, closing, rfl, rfl⟩
  exact (take64_ok whole).2.2

/-- A number that was read is written as it was read if its last group is not empty, or the only
one, and in less bytes otherwise. -/
theorem encode_decoded (decoded : size.decode bytes = .ok (number, taken)) :
    (encode number = bytes.take taken ↔ taken = 1 ∨ bytes.getD (taken - 1) 0 ≠ 0) ∧
      (encode number ≠ bytes.take taken → (encode number).length < taken) := by
  obtain ⟨last, closing, rfl, rfl, _⟩ := decode_eq_ok.mp decoded
  by_cases full : last = 0 ∨ bytes.getD last 0 ≠ 0
  · have same := encode_spelled closing.first full
    have marked := full.imp_left (congrArg (· + 1))
    exact ⟨⟨fun _ => marked, fun _ => same⟩, fun other => absurd same other⟩
  · obtain ⟨later, blank⟩ := not_or.mp full
    have shorter := length_encode_spelled_lt later (not_not.mp blank)
    have inside := (closes_at closing.first).1
    refine ⟨⟨fun same => ?_, fun whole => ?_⟩, fun _ => shorter⟩
    · rw [same, List.length_take] at shorter
      omega
    · exact absurd (whole.imp_left Nat.succ_inj.mp) full

/-! ## Reading at a position -/

theorem readingAt_eq (size : Size) (bytes : List UInt8) (position : Nat) :
    readingAt size.read bytes position =
      match size.decode (bytes.drop position) with
      | .ok (number, taken) => .ok number (position + taken)
      | .error cause => .error cause position := by
  have read : size.read = reading size.take := by cases size <;> rfl
  rw [decode_bind, read]
  unfold readingAt reading
  dsimp only
  cases size.take (bytes.drop position) with
  | ok pair => rfl
  | error cause =>
      dsimp only
      rw [Nat.sub_self]
      rfl

/-- Behind the end there is no number. -/
theorem readingAt_behind {position : Nat} (size : Size) (behind : bytes.length ≤ position) :
    readingAt size.read bytes position = .error .incompleteNumber position := by
  rw [readingAt_eq, List.drop_eq_nil_of_le behind]
  cases size <;> rfl

theorem read_encode (rest : List UInt8) (fits : number < size.bound) :
    size.read (encode number ++ rest) = .ok number rest := by
  cases size with
  | word32 => exact read32_encode rest fits
  | word64 => exact read64_encode rest fits

theorem readingAt_encode (front rest : List UInt8) (fits : number < size.bound) :
    readingAt size.read (front ++ (encode number ++ rest)) front.length =
      .ok number (front ++ encode number).length := by
  unfold readingAt
  rw [List.drop_left]
  simp only [read_encode rest fits, List.length_append, Nat.add_sub_cancel]

/-- The bytes of numbers that are written one after the other. -/
def series (numbers : List (Size × Nat)) : List UInt8 :=
  numbers.flatMap fun entry => encode entry.2

theorem series_cons (entry : Size × Nat) (numbers : List (Size × Nat)) :
    series (entry :: numbers) = encode entry.2 ++ series numbers := rfl

theorem series_append (before after : List (Size × Nat)) :
    series (before ++ after) = series before ++ series after := List.flatMap_append

/-- Numbers that are written one after the other are read so, whatever stands around them. -/
theorem mapM_readingAt (front rest : List UInt8) {numbers : List (Size × Nat)}
    (fits : ∀ entry ∈ numbers, entry.2 < entry.1.bound) :
    (numbers.mapM fun entry => readingAt entry.1.read (front ++ (series numbers ++ rest)))
        front.length =
      .ok (numbers.map Prod.snd) (front ++ series numbers).length := by
  induction numbers generalizing front with
  | nil => simp [series]
  | cons entry numbers induction =>
      obtain ⟨here, later⟩ := List.forall_mem_cons.mp fits
      have read := readingAt_encode front (series numbers ++ rest) here
      have others := induction (front ++ encode entry.2) later
      rw [List.append_assoc] at others
      rw [List.mapM_cons, series_cons, List.append_assoc, Step.bind_ok _ read,
        Step.bind_ok _ others]
      simp

/-- For any bytes a number of either size is read exactly if a byte without a top bit stands among
the first ten, with no more than one bit in the tenth, and the number that is spelled up to there
fits the size, as every one does for the larger size.  It is written again as it was read unless
its last group is empty, and is shorter then.  Reading at a position, also behind the end, moves
over what is taken, and nowhere if it fails.  Numbers that are written one after the other are read
in order, each where the one before it ends. -/
theorem decode_exactly :
    (∀ (size : Size) bytes number taken, size.decode bytes = .ok (number, taken) ↔
      ∃ last, Closing 10 bytes last ∧ taken = last + 1 ∧
        number = spelled bytes (last + 1) ∧ number < size.bound) ∧
    (∀ bytes last, Closing 10 bytes last → spelled bytes (last + 1) < Size.word64.bound) ∧
    (∀ (size : Size) bytes cause, size.decode bytes = .error cause → cause.kind = .corruptIndex) ∧
    (∀ (size : Size) bytes number taken, size.decode bytes = .ok (number, taken) →
      (encode number = bytes.take taken ↔ taken = 1 ∨ bytes.getD (taken - 1) 0 ≠ 0) ∧
      (encode number ≠ bytes.take taken → (encode number).length < taken)) ∧
    (∀ (size : Size) bytes position, readingAt size.read bytes position =
      match size.decode (bytes.drop position) with
      | .ok (number, taken) => .ok number (position + taken)
      | .error cause => .error cause position) ∧
    (∀ (size : Size) bytes position, bytes.length ≤ position →
      readingAt size.read bytes position = .error .incompleteNumber position) ∧
    ∀ (numbers : List (Size × Nat)) front rest, (∀ entry ∈ numbers, entry.2 < entry.1.bound) →
      let bytes := front ++ (series numbers ++ rest)
      (numbers.mapM fun entry => readingAt entry.1.read bytes) front.length =
        .ok (numbers.map Prod.snd) (front ++ series numbers).length ∧
      ∀ before entry after, numbers = before ++ entry :: after →
        readingAt entry.1.read bytes (front ++ series before).length =
          .ok entry.2 (front ++ series (before ++ [entry])).length := by
  refine ⟨fun _ _ _ _ => decode_eq_ok, fun _ _ => spelled_bound, fun _ _ _ => decode_error,
    fun _ _ _ _ => encode_decoded, readingAt_eq, fun size _ _ => readingAt_behind size, ?_⟩
  intro numbers front rest fits bytes
  refine ⟨mapM_readingAt front rest fits, ?_⟩
  rintro before entry after rfl
  have here := fits entry (List.mem_append_right _ List.mem_cons_self)
  have read := readingAt_encode (front ++ series before) (series after ++ rest) here
  have split : bytes = (front ++ series before) ++ (encode entry.2 ++ (series after ++ rest)) := by
    simp only [bytes, series_append, series_cons, List.append_assoc]
  rw [split, read, series_append, series_cons]
  simp [series]

/-- A number with an empty third group, the longest number there is, and behind both a number that
is cut short. -/
theorem decode_exactly_padded :
    let padded : List UInt8 := [172, 130, 0]
    let longest : List UInt8 := [255, 255, 255, 255, 255, 255, 255, 255, 255, 1]
    let numbers : List (Size × Nat) := [(.word32, 300), (.word64, 18446744073709551615)]
    let bytes := padded ++ (series numbers ++ [128])
    Size.word32.decode padded = .ok (300, 3) ∧ (encode 300).length < 3 ∧
      Closing 10 longest 9 ∧ Size.word64.decode longest = .ok (18446744073709551615, 10) ∧
      spelled longest 10 < Size.word64.bound ∧
      Size.word64.decode [128] = .error .incompleteNumber ∧
      Error.incompleteNumber.kind = .corruptIndex ∧
      bytes.length = 16 ∧
      (numbers.mapM fun entry => readingAt entry.1.read bytes) 3 =
        .ok [300, 18446744073709551615] 15 ∧
      readingAt Size.word64.read bytes 15 = .error .incompleteNumber 15 ∧
      readingAt Size.word32.read bytes 17 = .error .incompleteNumber 17 := by
  intro padded longest numbers bytes
  obtain ⟨accepts, bounded, corrupt, again, stays, behind, run⟩ := decode_exactly
  have decoded : Size.word32.decode padded = .ok (300, 3) := by decide
  have whole : Size.word64.decode longest = .ok (18446744073709551615, 10) := by decide
  have cut : Size.word64.decode [128] = .error .incompleteNumber := by decide
  obtain ⟨last, closing, same, _⟩ := (accepts .word64 longest _ _).mp whole
  cases same
  obtain ⟨written, shorter⟩ := again .word32 padded 300 3 decoded
  have other : encode 300 ≠ padded.take 3 := fun same => absurd (written.mp same) (by decide)
  have length : (padded ++ series numbers).length = 15 := by cbv
  have total : bytes.length = 16 := by cbv
  have read := (run numbers padded [128] (by decide)).1
  rw [length] at read
  refine ⟨decoded, shorter other, closing, whole, bounded longest 9 closing, cut,
    corrupt .word64 [128] _ cut, total, read, ?_, behind .word32 bytes 17 (by omega)⟩
  have ahead : bytes.drop 15 = [128] := by cbv
  rw [stays, ahead, cut]

end Varint

end Concordance
