import Concordance.Proofs.Index.Opening

/-!
# The regions of a file

An index file is read in place: the postings, the keys and the block of each key are stretches of
one sequence of bytes, and the numbers that say where they start and stop come out of the file.
Reading in place goes wrong where a stretch is not inside of the file or where an offset does not
fit in its word.  Whatever the file is, that never happens.  A file that opens is tiled by its
header, its postings and its keys, and every block that it hands out lies within the postings.
-/

namespace Concordance

namespace Index

/-! ## Reading in place -/

/-- What goes wrong where bytes are read in place. -/
inductive Fault where
  /-- A stretch of bytes that is not inside of the file. -/
  | outside (start stop : Nat)
  /-- An offset that does not fit in a word of 64 bits. -/
  | wrapped (offset : Nat)
  deriving DecidableEq

/-- A reading ends with a value or an error, unless it goes wrong. -/
abbrev Reading := ExceptT Error (Except Fault)

namespace Reading

variable {α β : Type}

/-- A reading that does not go wrong. -/
def safe (result : Except Error α) : Reading α := ExceptT.mk (.ok result)

/-- The bytes from one place of a file to another. -/
def slice (bytes : List UInt8) (start stop : Nat) : Reading (List UInt8) :=
  ExceptT.mk <|
    if start ≤ stop ∧ stop ≤ bytes.length then .ok (.ok ((bytes.drop start).take (stop - start)))
    else .error (.outside start stop)

/-- An offset behind a place in a file. -/
def behind (base offset : Nat) : Reading Nat :=
  ExceptT.mk <|
    if base + offset < Header.offsetLimit then .ok (.ok (base + offset))
    else .error (.wrapped (base + offset))

theorem safe_ok_bind (value : α) (next : α → Reading β) :
    (safe (.ok value) >>= next) = next value := rfl

theorem slice_inside {bytes : List UInt8} {start stop : Nat} (forward : start ≤ stop)
    (inside : stop ≤ bytes.length) :
    slice bytes start stop = safe (.ok ((bytes.drop start).take (stop - start))) := by
  rw [slice, if_pos ⟨forward, inside⟩]
  rfl

theorem behind_fits {base offset : Nat} (fits : base + offset < Header.offsetLimit) :
    behind base offset = safe (.ok (base + offset)) := by
  rw [behind, if_pos fits]
  rfl

end Reading

/-- The header at the front of a file. -/
def Header.decodeInPlace (bytes : List UInt8) : Reading Header := do
  if bytes.length < size then throw (.fileTooShort bytes.length)
  let header := ofBytes (← Reading.slice bytes 0 size)
  if header.magic ≠ fileMagic then throw .notAnIndex
  if header.version ≠ currentVersion then throw (.incompatibleVersion header.version.toNat)
  pure header

/-- An index whose file stays as it is. -/
structure Mapped where
  name : String
  bytes : List UInt8
  header : Header
  keys : Dictionary

namespace Mapped

/-- The index with its postings cut out of the file. -/
def index (mapped : Mapped) : Index :=
  { name := mapped.name
    header := mapped.header
    postings := (mapped.bytes.drop Header.size).take mapped.header.postingsLength.toNat
    keys := mapped.keys }

/-- Open a file in place.  The postings are only looked at to verify them. -/
def openBytes (name : String) (bytes : List UInt8) (verify : Bool) (format : KeyFormat) :
    Reading Mapped := do
  let header ← Header.decodeInPlace bytes
  let (postingsStart, postingsStop) ← Reading.safe header.postingsRange
  let (keysStart, keysStop) ← Reading.safe header.keysRange
  if keysStop ≠ bytes.length then throw (.fileLengthMismatch name bytes.length keysStop)
  if verify then
    let postings ← Reading.slice bytes postingsStart postingsStop
    if UInt32.ofBitVec (Checksum.ofBytes postings) ≠ header.checksum then
      throw (.checksumMismatch name)
  let keys ← Reading.safe (format.decode (← Reading.slice bytes keysStart keysStop))
  if keys.size ≠ header.keyCount.toNat then
    throw (.keyCountMismatch keys.size header.keyCount.toNat)
  pure ⟨name, bytes, header, keys⟩

/-- The block that starts at the offset of a key, in place. -/
def blockAt (mapped : Mapped) (key : Key) (offset : Nat) : Reading (List UInt8) := do
  let stop := mapped.index.blockStop key
  if stop < offset ∨ mapped.header.postingsLength.toNat < stop then
    throw (.blockOutside key offset stop)
  let first ← Reading.behind Header.size offset
  let last ← Reading.behind Header.size stop
  Reading.slice mapped.bytes first last

end Mapped

/-! ## Opening -/

/-- The regions that a header names cover a file without gaps. -/
structure Header.Tiles (header : Header) (bytes : List UInt8) : Prop where
  front : header.encode = bytes.take size
  postings : header.postingsRange = .ok (size, size + header.postingsLength.toNat)
  keys : header.keysRange = .ok (size + header.postingsLength.toNat, bytes.length)

variable {name : String} {bytes : List UInt8} {verify : Bool} {format : KeyFormat}
  {header : Header}

theorem Header.decode_cases (bytes : List UInt8) :
    (decode bytes = .ok (ofBytes (bytes.take size)) ∧
      (ofBytes (bytes.take size)).encode = bytes.take size) ∨
    ∃ cause, decode bytes = .error cause ∧ cause.kind = .corruptIndex := by
  unfold decode
  by_cases short : bytes.length < size
  · rw [if_pos short]
    exact .inr ⟨_, rfl, rfl⟩
  · rw [if_neg short]
    by_cases magic : (ofBytes (bytes.take size)).magic = fileMagic
    · by_cases version : (ofBytes (bytes.take size)).version = currentVersion
      · refine .inl ⟨?_, encode_ofBytes ?_⟩
        · dsimp only
          rw [if_neg (not_not_intro magic), if_neg (not_not_intro version)]
          rfl
        · rw [List.length_take]
          omega
      · refine .inr ⟨.incompatibleVersion (ofBytes (bytes.take size)).version.toNat, ?_, rfl⟩
        dsimp only
        rw [if_neg (not_not_intro magic), if_pos version]
        rfl
    · refine .inr ⟨.notAnIndex, ?_, rfl⟩
      dsimp only
      rw [if_pos magic]
      rfl

theorem Header.decodeInPlace_safe (bytes : List UInt8) :
    decodeInPlace bytes = Reading.safe (decode bytes) := by
  unfold decodeInPlace decode
  by_cases short : bytes.length < size
  · rw [if_pos short, if_pos short]
    rfl
  · rw [if_neg short, if_neg short]
    dsimp only
    rw [Reading.slice_inside (Nat.zero_le _) (Nat.not_lt.mp short), List.drop_zero, Nat.sub_zero,
      Reading.safe_ok_bind]
    split
    · rfl
    · split <;> rfl

theorem Header.postingsRange_cases (header : Header) :
    (header.postingsRange = .ok (size, size + header.postingsLength.toNat) ∧
      size + header.postingsLength.toNat < offsetLimit) ∨
    header.postingsRange = .error .postingsOverflow := by
  unfold postingsRange
  dsimp only
  split
  · exact .inl ⟨rfl, by assumption⟩
  · exact .inr rfl

theorem Header.keysRange_cases (header : Header) :
    (∃ stop, header.keysRange = .ok (size + header.postingsLength.toNat, stop) ∧
      size + header.postingsLength.toNat ≤ stop ∧ stop < offsetLimit) ∨
    ∃ cause, header.keysRange = .error cause ∧ cause.kind = .corruptIndex := by
  unfold keysRange
  dsimp only
  split
  · exact .inr ⟨_, rfl, rfl⟩
  · rename_i placed
    split
    · rw [not_not.mp placed] at *
      exact .inl ⟨_, rfl, Nat.le_add_right _ _, by assumption⟩
    · exact .inr ⟨_, rfl, rfl⟩

theorem Header.Tiles.bounds (tiles : header.Tiles bytes) :
    size + header.postingsLength.toNat ≤ bytes.length ∧ bytes.length < offsetLimit := by
  rcases header.keysRange_cases with ⟨stop, known, forward, fits⟩ | ⟨cause, refused, _⟩
  · cases known.symm.trans tiles.keys
    exact ⟨forward, fits⟩
  · cases refused.symm.trans tiles.keys

/-- A file that its header does not tile is corrupt, and reading it in place does not get as far
as to its regions. -/
theorem openBytes_untiled
    (untiled : ∀ header, Header.decode bytes = .ok header → ¬header.Tiles bytes) (name : String)
    (verify : Bool) (format : KeyFormat) :
    ∃ cause, cause.kind = .corruptIndex ∧
      Mapped.openBytes name bytes verify format = Reading.safe (.error cause) ∧
      open? ⟨name, some bytes⟩ verify format = .error cause := by
  unfold Mapped.openBytes open?
  rw [Header.decodeInPlace_safe]
  dsimp only
  rw [pure_bind]
  rcases Header.decode_cases bytes with ⟨decoded, front⟩ | ⟨cause, refused, kind⟩
  on_goal 2 => exact ⟨cause, kind, by rw [refused]; rfl, by rw [refused]; rfl⟩
  rw [decoded, Reading.safe_ok_bind, Step.ok_bind]
  rcases (Header.ofBytes (bytes.take Header.size)).postingsRange_cases with
    ⟨postings, _⟩ | refused
  on_goal 2 => exact ⟨.postingsOverflow, rfl, by rw [refused]; rfl, by rw [refused]; rfl⟩
  rw [postings, Reading.safe_ok_bind, Step.ok_bind]
  rcases (Header.ofBytes (bytes.take Header.size)).keysRange_cases with
    ⟨stop, keys, _⟩ | ⟨cause, refused, kind⟩
  on_goal 2 => exact ⟨cause, kind, by rw [refused]; rfl, by rw [refused]; rfl⟩
  rw [keys, Reading.safe_ok_bind, Step.ok_bind]
  -- All that is left to go wrong is the length of the file.
  have short : stop ≠ bytes.length := fun whole =>
    untiled _ decoded ⟨front, postings, whole ▸ keys⟩
  refine ⟨.fileLengthMismatch name bytes.length stop, rfl, ?_, ?_⟩ <;>
    (dsimp only; rw [if_pos short]; rfl)

/-- With its keys a file is opened or refused, in place as with the postings cut out. -/
theorem Mapped.load_safe (name : String) (bytes : List UInt8) (header : Header)
    (read : Except Error Dictionary) :
    ∃ result : Except Error Mapped,
      (do
        let keys ← Reading.safe read
        if keys.size ≠ header.keyCount.toNat then
          throw (.keyCountMismatch keys.size header.keyCount.toNat)
        pure ⟨name, bytes, header, keys⟩) = Reading.safe result ∧
      (do
        let keys ← read
        if keys.size ≠ header.keyCount.toNat then
          throw (.keyCountMismatch keys.size header.keyCount.toNat)
        pure ⟨name, header, (bytes.drop Header.size).take header.postingsLength.toNat, keys⟩) =
        result.map Mapped.index ∧
      ∀ mapped, result = .ok mapped →
        mapped.bytes = bytes ∧ mapped.header = header ∧ read = .ok mapped.keys := by
  cases read with
  | error cause => exact ⟨.error cause, rfl, rfl, fun _ impossible => nomatch impossible⟩
  | ok keys =>
      rw [Reading.safe_ok_bind, Step.ok_bind]
      by_cases counted : keys.size = header.keyCount.toNat
      · rw [if_neg (not_not_intro counted), if_neg (not_not_intro counted)]
        refine ⟨.ok ⟨name, bytes, header, keys⟩, rfl, rfl, ?_⟩
        rintro _ ⟨⟩
        exact ⟨rfl, rfl, rfl⟩
      · rw [if_pos counted, if_pos counted]
        exact ⟨.error (.keyCountMismatch keys.size header.keyCount.toNat), rfl, rfl,
          fun _ impossible => nomatch impossible⟩

/-- A file that its header tiles is read in place without going wrong. -/
theorem openBytes_tiled (tiles : header.Tiles bytes) (decoded : Header.decode bytes = .ok header)
    (name : String) (verify : Bool) (format : KeyFormat) :
    ∃ result, Mapped.openBytes name bytes verify format = Reading.safe result ∧
      open? ⟨name, some bytes⟩ verify format = result.map Mapped.index ∧
      ∀ mapped, result = .ok mapped → mapped.bytes = bytes ∧ mapped.header = header ∧
        format.decode (bytes.drop (Header.size + header.postingsLength.toNat)) =
          .ok mapped.keys := by
  obtain ⟨inside, _⟩ := tiles.bounds
  have postings := @Reading.slice_inside bytes Header.size
    (Header.size + header.postingsLength.toNat) (Nat.le_add_right _ _) inside
  have keys := @Reading.slice_inside bytes _ bytes.length inside (Nat.le_refl _)
  rw [← List.length_drop, List.take_length] at keys
  unfold Mapped.openBytes open?
  rw [Header.decodeInPlace_safe]
  dsimp only
  rw [pure_bind, decoded, Reading.safe_ok_bind, Step.ok_bind, tiles.postings,
    Reading.safe_ok_bind, Step.ok_bind, tiles.keys, Reading.safe_ok_bind, Step.ok_bind]
  dsimp only
  rw [if_neg (not_not_intro rfl), if_neg (not_not_intro rfl), postings, keys,
    Nat.add_sub_cancel_left, Reading.safe_ok_bind, Reading.safe_ok_bind]
  have loads := Mapped.load_safe name bytes header
    (format.decode (bytes.drop (Header.size + header.postingsLength.toNat)))
  cases verify with
  | false => exact loads
  | true =>
      rw [if_pos rfl, Bool.true_and]
      by_cases sound : UInt32.ofBitVec (Checksum.ofBytes
          ((bytes.drop Header.size).take header.postingsLength.toNat)) = header.checksum
      · rw [if_neg (not_not_intro sound), if_neg (by simpa using sound)]
        exact loads
      · rw [if_pos sound, if_pos (by simpa using sound)]
        exact ⟨.error (.checksumMismatch name), rfl, rfl, fun _ impossible => nomatch impossible⟩

/-- The regions of a file that opens are those that its header tiles it with. -/
theorem tiled_of_open? {name : String} {verify : Bool} {format : KeyFormat} {index : Index}
    (opened : open? ⟨name, some bytes⟩ verify format = .ok index) :
    Header.decode bytes = .ok index.header ∧ index.header.Tiles bytes ∧
      index.postings = (bytes.drop Header.size).take index.header.postingsLength.toNat := by
  by_cases tiled : ∃ header, Header.decode bytes = .ok header ∧ header.Tiles bytes
  · obtain ⟨header, decoded, tiles⟩ := tiled
    obtain ⟨result, _, same, loaded⟩ := openBytes_tiled tiles decoded name verify format
    rw [opened] at same
    cases result with
    | error cause => cases same
    | ok mapped =>
        obtain ⟨rfl, rfl, _⟩ := loaded mapped rfl
        cases Except.ok.inj same
        exact ⟨decoded, tiles, rfl⟩
  · obtain ⟨cause, _, _, refused⟩ := openBytes_untiled
      (fun header decoded tiles => tiled ⟨header, decoded, tiles⟩) name verify format
    cases opened.symm.trans refused

/-! ## Blocks -/

/-- Reading the block of a key in place does not go wrong, whatever its offset is. -/
theorem Mapped.blockAt_safe {mapped : Mapped} (tiles : mapped.header.Tiles mapped.bytes)
    (key : Key) (offset : Nat) :
    mapped.blockAt key offset = Reading.safe (mapped.index.blockAt key offset) := by
  obtain ⟨inside, limit⟩ := tiles.bounds
  unfold Mapped.blockAt Index.blockAt
  dsimp only
  generalize mapped.index.blockStop key = stop
  have length : mapped.index.header.postingsLength = mapped.header.postingsLength := rfl
  rw [length]
  by_cases outside : stop < offset ∨ mapped.header.postingsLength.toNat < stop
  · rw [if_pos outside, if_pos outside]
    rfl
  · obtain ⟨forward, within⟩ := not_or.mp outside
    rw [if_neg outside, if_neg outside, Reading.behind_fits (by omega), Reading.safe_ok_bind,
      Reading.behind_fits (by omega), Reading.safe_ok_bind,
      Reading.slice_inside (by omega) (by omega), Mapped.index, List.drop_take, List.take_take,
      List.drop_drop, Nat.add_sub_add_left, Nat.min_eq_left (by omega)]

variable {index : Index} {front back : List (Key × Nat)} {key : Key} {offset : Nat}

/-- The block of a key ends with the offset of the next key, or with the postings. -/
theorem blockStop_entry (ascending : Dictionary.Ascending index.keys.entries)
    (split : index.keys.entries = front ++ (key, offset) :: back) :
    index.blockStop key =
      (back.head?.map Prod.snd).getD index.header.postingsLength.toNat := by
  have next : index.keys.after? key = back.head? := by
    rw [split] at ascending
    have following := Dictionary.after?_middle ascending
    rwa [← split] at following
  rw [blockStop, next]
  cases back.head? <;> rfl

theorem block?_entry (ascending : Dictionary.Ascending index.keys.entries)
    (split : index.keys.entries = front ++ (key, offset) :: back) :
    index.block? key = (index.blockAt key offset).map some := by
  have held : index.keys.get? key = some offset := by
    rw [split] at ascending
    have found := Dictionary.get?_middle ascending
    rwa [← split] at found
  rw [block?, held]

theorem KeyWalk.block_entry (ascending : Dictionary.Ascending index.keys.entries)
    (split : index.keys.entries = front ++ (key, offset) :: back) :
    (after index front.length).block index =
      (index.blockAt key offset).map fun bytes => (key, bytes) := by
  rw [block, after_current ascending, split, List.getElem?_append_right (Nat.le_refl _),
    Nat.sub_self]
  rfl

/-- Whatever bytes stand in a file, with or without a look at the checksum: reading it in place
never goes wrong and gives what the index gives.  Where the file opens it is tiled by its regions,
and where its header does not tile it, it is corrupt.  The block of a key, looked up or come across
on a walk over the keys, reaches from its offset to that of the next key or to the end of the
postings if it lies within these, and the index is corrupt otherwise. -/
theorem openBytes_regions (name : String) (bytes : List UInt8) (verify : Bool)
    (format : KeyFormat) :
    ∃ result, Mapped.openBytes name bytes verify format = Reading.safe result ∧
      open? ⟨name, some bytes⟩ verify format = result.map Mapped.index ∧
      ((∀ header, Header.decode bytes = .ok header → ¬header.Tiles bytes) →
        ∃ cause, result = .error cause ∧ cause.kind = .corruptIndex) ∧
      ∀ mapped, result = .ok mapped →
        mapped.bytes = bytes ∧ mapped.header.Tiles bytes ∧
        format.decode (bytes.drop (Header.size + mapped.header.postingsLength.toNat)) =
          .ok mapped.keys ∧
        (∀ key offset,
          mapped.blockAt key offset = Reading.safe (mapped.index.blockAt key offset)) ∧
        ∀ front key offset back, mapped.keys.entries = front ++ (key, offset) :: back →
          Dictionary.Ascending mapped.keys.entries →
          let length := mapped.header.postingsLength.toNat
          let stop := (back.head?.map Prod.snd).getD length
          mapped.index.block? key = (mapped.index.blockAt key offset).map some ∧
          (KeyWalk.after mapped.index front.length).block mapped.index =
            (mapped.index.blockAt key offset).map (fun block => (key, block)) ∧
          (offset ≤ stop ∧ stop ≤ length →
            Reading.slice bytes (Header.size + offset) (Header.size + stop) =
              Reading.safe (mapped.index.blockAt key offset)) ∧
          (¬(offset ≤ stop ∧ stop ≤ length) →
            ∃ cause, mapped.index.blockAt key offset = .error cause ∧
              cause.kind = .corruptIndex) := by
  by_cases tiled : ∃ header, Header.decode bytes = .ok header ∧ header.Tiles bytes
  · obtain ⟨header, decoded, tiles⟩ := tiled
    obtain ⟨result, inPlace, opened, loaded⟩ := openBytes_tiled tiles decoded name verify format
    refine ⟨result, inPlace, opened, fun untiled => absurd tiles (untiled header decoded), ?_⟩
    intro mapped same
    obtain ⟨rfl, rfl, keys⟩ := loaded mapped same
    refine ⟨rfl, tiles, keys, mapped.blockAt_safe tiles, ?_⟩
    intro front key offset back split ascending length stop
    have stops : mapped.index.blockStop key = stop := blockStop_entry ascending split
    refine ⟨block?_entry ascending split, KeyWalk.block_entry ascending split, ?_, ?_⟩
    · rintro ⟨forward, within⟩
      obtain ⟨inside, limit⟩ := tiles.bounds
      have allowed : ¬(stop < offset ∨ length < stop) := by omega
      rw [← mapped.blockAt_safe tiles, Mapped.blockAt, stops]
      dsimp only
      rw [if_neg allowed, Reading.behind_fits (by omega), Reading.safe_ok_bind,
        Reading.behind_fits (by omega), Reading.safe_ok_bind]
    · intro outside
      have refused : stop < offset ∨ length < stop := by omega
      refine ⟨.blockOutside key offset stop, ?_, rfl⟩
      rw [blockAt, stops]
      exact if_pos refused
  · obtain ⟨cause, kind, inPlace, opened⟩ := openBytes_untiled
      (fun header decoded tiles => tiled ⟨header, decoded, tiles⟩) name verify format
    exact ⟨.error cause, inPlace, opened, fun _ => ⟨cause, rfl, kind⟩,
      fun _ impossible => nomatch impossible⟩

/-- A file of five bytes of postings in which the offset of the second key lies outside of them: the
first key and the second one have no block, the third one has.  A header alone that has no place
for keys is no index. -/
theorem openBytes_regions_forged :
    let postings : List UInt8 := [10, 11, 12, 13, 14]
    let keys : Dictionary := ⟨[([97], 1), ([98], 9), ([99], 2)]⟩
    let header := Header.ofRegions postings keys.encode keys.size Collection.empty
    let bytes := header.encode ++ postings ++ keys.encode
    (∃ mapped, Mapped.openBytes "index" bytes true KeyFormat.plain = Reading.safe (.ok mapped) ∧
      mapped.header = header ∧ header.Tiles bytes ∧ mapped.keys = keys ∧
      (∃ cause, mapped.index.blockAt [97] 1 = .error cause ∧ cause.kind = .corruptIndex) ∧
      (∃ cause, mapped.index.blockAt [98] 9 = .error cause ∧ cause.kind = .corruptIndex) ∧
      mapped.index.block? [99] = .ok (some [12, 13, 14])) ∧
    (∀ header, Header.decode Header.blank.encode = .ok header →
      ¬header.Tiles Header.blank.encode) ∧
    ∃ cause, open? ⟨"blank", some Header.blank.encode⟩ true = .error cause ∧
      cause.kind = .corruptIndex := by
  intro postings keys header bytes
  constructor
  · have ascending : Dictionary.Ascending keys.entries :=
      Dictionary.isAscending_iff.mp (by decide)
    have offsets : ∀ entry ∈ keys.entries, entry.2 < Header.offsetLimit := by decide
    have short : keys.encode.length < Header.offsetLimit := by decide
    have decoded : KeyFormat.plain.decode keys.encode = .ok keys :=
      KeyFormat.plain_faithful.decode_encode keys ascending offsets short
    have fits : Header.size + postings.length + keys.encode.length < Header.offsetLimit := by decide
    have count : keys.size < Header.offsetLimit := by decide
    have written : open? ⟨"index", some bytes⟩ true KeyFormat.plain =
        .ok ⟨"index", header, postings, keys⟩ :=
      open?_regions decoded fits count "index" true
    have length : header.postingsLength.toNat = 5 := by decide
    clear_value bytes header
    obtain ⟨result, inPlace, opened, _, regions⟩ :=
      openBytes_regions "index" bytes true KeyFormat.plain
    cases result with
    | error cause => cases opened.symm.trans written
    | ok mapped =>
        have same : mapped.index = ⟨"index", header, postings, keys⟩ :=
          Except.ok.inj (opened.symm.trans written)
        obtain ⟨_, tiles, _, _, entries⟩ := regions mapped rfl
        have sameKeys : mapped.keys = keys := congrArg Index.keys same
        have sameHeader : mapped.header = header := congrArg Index.header same
        rw [sameKeys, sameHeader, same, length] at entries
        obtain ⟨_, _, _, first⟩ := entries [] [97] 1 [([98], 9), ([99], 2)] rfl ascending
        obtain ⟨_, _, _, second⟩ := entries [([97], 1)] [98] 9 [([99], 2)] rfl ascending
        obtain ⟨third, _, _, _⟩ := entries [([97], 1), ([98], 9)] [99] 2 [] rfl ascending
        refine ⟨mapped, inPlace, sameHeader, sameHeader ▸ tiles, sameKeys, ?_⟩
        have block : (⟨"index", header, postings, keys⟩ : Index).blockAt [99] 2 =
            .ok [12, 13, 14] := by
          have stop := @blockStop_entry ⟨"index", header, postings, keys⟩ [([97], 1), ([98], 9)] []
            [99] 2 ascending rfl
          simp [blockAt, stop, length, postings]
        rw [same, third, block]
        exact ⟨first (by decide), second (by decide), rfl⟩
  · have untiled : ∀ header, Header.decode Header.blank.encode = .ok header →
        ¬header.Tiles Header.blank.encode := by
      intro header decoded tiles
      have front := @Header.decode_append Header.blank rfl rfl []
      rw [List.append_nil] at front
      cases front.symm.trans decoded
      cases tiles.keys
    refine ⟨untiled, ?_⟩
    obtain ⟨result, _, opened, corrupt, _⟩ :=
      openBytes_regions "blank" Header.blank.encode true KeyFormat.plain
    obtain ⟨cause, rfl, kind⟩ := corrupt untiled
    exact ⟨cause, opened, kind⟩

end Index

end Concordance
