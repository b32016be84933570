import Concordance.Proofs.Block.Boundary
import Concordance.Proofs.Index.Opening
import Concordance.Proofs.Index.Regions

/-!
# Where the block of a key ends

An index does not store where the block of a key ends: the slice of a key reaches up to the offset
of the next one.  A slice that is cut short or that runs on into what stands behind the block
cannot be taken for a block.
-/

namespace Concordance

theorem Leaf.open?_refused {block : List UInt8} {cause : Error}
    (refused : Block.Layout.parse block = .error cause) (key : Key) (withExtents : Bool) :
    open? key block withExtents = .error cause := by
  unfold open? Block.Reader.open?
  rw [refused]
  rfl

namespace Index

variable {name : String} {bytes : List UInt8} {verify : Bool} {format : KeyFormat} {index : Index}
  {key : Key} {offset : Nat} {block : List UInt8} {layout : Block.Layout} {cause : Error}

theorem length_postings (opened : open? ⟨name, some bytes⟩ verify format = .ok index) :
    index.postings.length = index.header.postingsLength.toNat := by
  obtain ⟨_, tiles, postings⟩ := tiled_of_open? opened
  obtain ⟨inside, _⟩ := tiles.bounds
  rw [postings, List.length_take, List.length_drop]
  omega

/-- The leaf that is opened on the slice of a key, looked up or come across on a walk. -/
def leafAt (index : Index) (key : Key) (offset : Nat) (withExtents : Bool) :
    Except Error Leaf := do
  let slice ← index.blockAt key offset
  Leaf.open? key slice withExtents

/-- Where the leaf is refused, so is the source of the key, and no cursor is added. -/
theorem addSource?_refused (held : index.keys.get? key = some offset) {withExtents : Bool}
    (refused : index.leafAt key offset withExtents = .error cause) (forest : Forest) :
    Forest.addSource? index key withExtents forest = .error cause forest := by
  have found : index.block? key = (index.blockAt key offset).map some := by rw [block?, held]
  unfold leafAt at refused
  unfold Forest.addSource?
  cases sliced : index.blockAt key offset with
  | error other =>
      rw [sliced] at found refused
      cases refused
      exact Step.bind_error _ (Step.ofExcept_error found forest)
  | ok slice =>
      rw [sliced] at found refused
      rw [Step.bind_ok _ (Step.ofExcept_run found forest)]
      refine Step.bind_error _ ?_
      exact Step.bind_error _ (Step.ofExcept_error refused forest)

/-- The slice of a key is not the block that stands at its offset, which it begins or goes on. -/
theorem leafAt_misplaced (opened : open? ⟨name, some bytes⟩ verify format = .ok index)
    (parsed : Block.Layout.parse block = .ok layout)
    (stands : block <+: index.postings.drop offset ∨ index.postings.drop offset <+: block)
    (misplaced : index.blockStop key ≠ offset + block.length) :
    ∃ cause, cause.kind = .corruptIndex ∧
      ∀ withExtents, index.leafAt key offset withExtents = .error cause := by
  have whole := length_postings opened
  unfold leafAt blockAt
  generalize index.blockStop key = stop at misplaced
  dsimp only
  by_cases outside : stop < offset ∨ index.header.postingsLength.toNat < stop
  · refine ⟨.blockOutside key offset stop, rfl, fun withExtents => ?_⟩
    rw [if_pos outside]
    rfl
  · obtain ⟨forward, within⟩ := not_or.mp outside
    have begins := List.take_prefix (stop - offset) (index.postings.drop offset)
    have length : ((index.postings.drop offset).take (stop - offset)).length = stop - offset := by
      rw [List.length_take, List.length_drop]
      omega
    rw [if_neg outside]
    generalize (index.postings.drop offset).take (stop - offset) = slice at begins length
    have comparable : slice <+: block ∨ block <+: slice := by
      rcases stands with inside | short
      · exact List.prefix_or_prefix_of_prefix begins inside
      · exact .inl (begins.trans short)
    have differs : slice ≠ block := by
      rintro rfl
      omega
    obtain ⟨cause, refused, kind⟩ := Block.Layout.parse_beside parsed comparable differs
    exact ⟨cause, kind, fun withExtents => Leaf.open?_refused refused key withExtents⟩

/-- Of bytes of which one begins the other, at most one can be parsed as a block.  So every block
of postings can be parsed and is corrupt both with bytes missing at its end and with more bytes
behind it.  In an index that opens, the slice of a key that stops before or behind the end of the
block at its offset is corrupt, with or without extents, and a look-up of the key adds no
cursor. -/
theorem blocks_delimited :
    (∀ front back layout other, back ≠ [] →
      ¬(Block.Layout.parse front = .ok layout ∧
        Block.Layout.parse (front ++ back) = .ok other)) ∧
    (∀ interval postings block, Block.Encoded interval postings block →
      (∃ layout, Block.Layout.parse block = .ok layout) ∧
      ∀ other, other ≠ block → other <+: block ∨ block <+: other →
        ∃ cause, Block.Layout.parse other = .error cause ∧ cause.kind = .corruptIndex) ∧
    ∀ name bytes verify format index, open? ⟨name, some bytes⟩ verify format = .ok index →
      ∀ key offset block layout, Block.Layout.parse block = .ok layout →
        block <+: index.postings.drop offset ∨ index.postings.drop offset <+: block →
        index.blockStop key ≠ offset + block.length →
        ∃ cause, cause.kind = .corruptIndex ∧ ∀ withExtents,
          index.leafAt key offset withExtents = .error cause ∧
          (index.keys.get? key = some offset →
            ∀ forest, Forest.addSource? index key withExtents forest = .error cause forest) := by
  refine ⟨?_, ?_, ?_⟩
  · rintro front back layout other more ⟨parsed, longer⟩
    obtain ⟨cause, refused, _⟩ := Block.Layout.parse_longer parsed more
    cases longer.symm.trans refused
  · intro interval postings block encoded
    obtain ⟨layout, parsed⟩ := Block.Layout.parse_encoded encoded
    exact ⟨⟨layout, parsed⟩, fun other differs comparable =>
      Block.Layout.parse_beside parsed comparable differs⟩
  · intro name bytes verify format index opened key offset block layout parsed stands misplaced
    obtain ⟨cause, kind, refused⟩ := leafAt_misplaced opened parsed stands misplaced
    exact ⟨cause, kind, fun withExtents =>
      ⟨refused withExtents, fun held => addSource?_refused held (refused withExtents)⟩⟩

/-- A block of one posting, alone and twice in an index: in front of a byte that belongs to no
block, and without its last byte at the end of the postings. -/
theorem blocks_delimited_slices :
    let block : List UInt8 := [1, 1, 1, 1, 0, 0, 1, 1, 2, 5, 1, 3, 4]
    let postings := block ++ [0] ++ block.take 12
    let keys : Dictionary := ⟨[([97], 0), ([98], 14)]⟩
    let header := Header.ofRegions postings keys.encode keys.size Collection.empty
    let index : Index := ⟨"index", header, postings, keys⟩
    Block.Encoded 1 [⟨.ofNat 5, 1, [.ofNats 3 7]⟩] block ∧
    (∃ cause, Block.Layout.parse (block ++ [0]) = .error cause ∧ cause.kind = .corruptIndex) ∧
    (∃ cause, Block.Layout.parse (block.take 12) = .error cause ∧ cause.kind = .corruptIndex) ∧
    open? ⟨"index", some (header.encode ++ postings ++ keys.encode)⟩ true = .ok index ∧
    (∃ cause, index.leafAt [97] 0 false = .error cause ∧ cause.kind = .corruptIndex) ∧
    ∃ cause, index.leafAt [98] 14 false = .error cause ∧ cause.kind = .corruptIndex := by
  intro block postings keys header index
  have encoded : Block.Encoded 1 [⟨.ofNat 5, 1, [.ofNats 3 7]⟩] block :=
    ⟨⟨by decide, by decide, by decide⟩, by cbv, by decide⟩
  have ascending : Dictionary.Ascending keys.entries := Dictionary.isAscending_iff.mp (by decide)
  have offsets : ∀ entry ∈ keys.entries, entry.2 < Header.offsetLimit := by decide
  have decoded : KeyFormat.plain.decode keys.encode = .ok keys :=
    KeyFormat.plain_faithful.decode_encode keys ascending offsets (by decide)
  have opened : open? ⟨"index", some (header.encode ++ postings ++ keys.encode)⟩ true = .ok index :=
    open?_regions decoded (by decide) (by decide) "index" true
  have length : header.postingsLength.toNat = 26 := by decide
  have first : index.blockStop [97] = 14 :=
    @blockStop_entry index [] [([98], 14)] [97] 0 ascending rfl
  have second : index.blockStop [98] = 26 :=
    (@blockStop_entry index [([97], 0)] [] [98] 14 ascending rfl).trans length
  obtain ⟨_, alone, slices⟩ := blocks_delimited
  obtain ⟨⟨layout, parsed⟩, others⟩ := alone 1 _ block encoded
  have sliced := slices "index" _ true _ index opened
  obtain ⟨running, runningKind, runsOn⟩ := sliced [97] 0 block layout parsed
    (.inl (by decide)) (by rw [first]; decide)
  obtain ⟨cutting, cuttingKind, cutShort⟩ := sliced [98] 14 block layout parsed
    (.inr (by decide)) (by rw [second]; decide)
  refine ⟨encoded, others _ (by decide) (.inr (by decide)), others _ (by decide) (.inl (by decide)),
    opened, ⟨running, (runsOn false).1, runningKind⟩, ⟨cutting, (cutShort false).1, cuttingKind⟩⟩

end Index

end Concordance
