import Concordance.Proofs.Block.RoundTrip

/-!
# The skip table of a block

The table of a block has one entry for each full group that another posting follows, and no other.
An entry names the last document of its group and the places in the three streams at which the
postings behind the group begin.
-/

namespace Concordance

namespace Block

/-- A skip entry with its places counted from the start of the block. -/
def Layout.placed (layout : Layout) (entry : SkipEntry) : SkipEntry :=
  { lastDoc := entry.lastDoc
    docsOffset := layout.docsStart + entry.docsOffset
    countsOffset := layout.countsStart + entry.countsOffset
    extentsOffset := layout.extentsStart + entry.extentsOffset }

variable {interval : Nat} {postings : List Posting} {bytes : List UInt8}

theorem placeAt_eq {number : Nat} (inside : number < postings.length) :
    placeAt postings (number + 1) =
      { lastDoc := postings[number].doc
        docsOffset := (docBytes (postings.take (number + 1))).length
        countsOffset := (countBytes (postings.take (number + 1))).length
        extentsOffset := (extentBytes (postings.take (number + 1))).length } := by
  rw [← placeAt_lastDoc inside]
  rfl

/-- The streams of a block follow its table in order. -/
theorem drop_docsStart (interval : Nat) (postings : List Posting) :
    (image interval postings).drop (Layout.of interval postings).docsStart =
      docBytes postings ++ (countBytes postings ++ extentBytes postings) := by
  have split := image_eq interval postings
  rw [body, ← List.append_assoc] at split
  simp only [Layout.of]
  rw [split, List.length_append, Nat.add_sub_cancel, List.drop_left]

/-- The figures of postings that count their extents are those of their counts. -/
theorem Summary.of_counts (counted : ∀ posting ∈ postings, posting.count = posting.extents.length) :
    Summary.of postings = ⟨postings.length, (postings.map Posting.count).sum,
      (postings.map Posting.count).foldl max 0⟩ := by
  have same : postings.map Posting.count = postings.map fun posting => posting.extents.length :=
    List.map_congr_left counted
  rw [same]
  rfl

/-- A block that was made of postings can be parsed, and its table is exact: as many entries as
there are full groups in front of the last posting, each with the last document of the groups up to
it and the places behind the gaps, counts and extents of their postings. -/
theorem encode_skipTable (addressable : Addressable interval postings)
    (encoded : encode postings interval = .ok bytes) (room : bytes.length < 9223372036854775808) :
    let group := max interval 1
    ∃ layout, Layout.parse bytes = .ok layout ∧ layout.skipInterval = group ∧
      layout.summary = ⟨postings.length, (postings.map Posting.count).sum,
        (postings.map Posting.count).foldl max 0⟩ ∧
      bytes.drop layout.docsStart =
        docBytes postings ++ (countBytes postings ++ extentBytes postings) ∧
      layout.countsStart = layout.docsStart + (docBytes postings).length ∧
      layout.extentsStart = layout.countsStart + (countBytes postings).length ∧
      layout.skips.length = (postings.length - 1) / group ∧
      ∀ number (inside : number < layout.skips.length),
        let front := postings.take ((number + 1) * group)
        ∃ posting, postings[(number + 1) * group - 1]? = some posting ∧
          layout.placed layout.skips[number] =
            { lastDoc := posting.doc
              docsOffset := layout.docsStart + (docBytes front).length
              countsOffset := layout.countsStart + (countBytes front).length
              extentsOffset := layout.extentsStart + (extentBytes front).length } := by
  intro group
  rcases encode_cases postings interval with ⟨done, encodable⟩ | ⟨cause, refused, _⟩
  · cases done.symm.trans encoded
    have stored := stored_of_addressable addressable encodable room
    have positive : 0 < group := Nat.lt_of_lt_of_le Nat.one_pos (Nat.le_max_right _ _)
    refine ⟨Layout.of group postings, stored.parses, rfl,
      Summary.of_counts fun posting member => (encodable.wellFormed posting member).counted,
      drop_docsStart group postings, rfl, rfl, length_places group postings, ?_⟩
    intro number inside front
    have within : number < skipsFor postings.length group := by
      rwa [← length_places group postings]
    have bound := mul_le_of_lt_skipsFor within
    have occupied : 0 < (number + 1) * group := Nat.mul_pos (Nat.succ_pos number) positive
    have last : (number + 1) * group - 1 < postings.length := by omega
    have back : (number + 1) * group - 1 + 1 = (number + 1) * group := by omega
    have place := placeAt_eq last
    rw [back] at place
    refine ⟨postings[(number + 1) * group - 1], List.getElem?_eq_getElem last, ?_⟩
    have entry : (Layout.of group postings).skips[number] =
        placeAt postings ((number + 1) * group) := by
      simp [Layout.of, places]
    rw [entry, place]
    rfl
  · cases refused.symm.trans encoded

/-- Groups of two: the table ends in front of the last group even where that is full, and the least
document stands in the first one. -/
theorem encode_skipTable_full :
    let posting (doc : Nat) : Posting := ⟨.ofNat doc, 1, [.ofNats doc (doc + 1)]⟩
    let postings := [posting 0, posting 300, posting 301, posting 302]
    Addressable 2 postings ∧ ∃ bytes, encode postings 2 = .ok bytes ∧
      bytes.length < 9223372036854775808 ∧ ∃ layout, Layout.parse bytes = .ok layout ∧
        layout.summary = ⟨4, 4, 1⟩ ∧
        layout.skips.map layout.placed = [⟨.ofNat 300, layout.docsStart + 3,
          layout.countsStart + 2, layout.extentsStart + 5⟩] := by
  intro posting postings
  have addressable : Addressable 2 postings := ⟨by decide, by decide, by decide⟩
  have size : (encode postings 2).toOption.map List.length = some 34 := by cbv
  cases encoded : encode postings 2 with
  | error cause =>
      rw [encoded] at size
      cases size
  | ok bytes =>
      have length : bytes.length = 34 := by
        rw [encoded] at size
        exact Option.some.inj size
      have room : bytes.length < 9223372036854775808 := by omega
      obtain ⟨layout, parsed, _, summary, _, _, _, single, entries⟩ :=
        encode_skipTable addressable encoded room
      have one : layout.skips.length = 1 := single.trans (by decide)
      obtain ⟨entry, table⟩ := List.length_eq_one_iff.mp one
      obtain ⟨last, found, place⟩ := entries 0 (by omega)
      have second : last = posting 300 := (Option.some.inj found).symm
      have front : postings.take ((0 + 1) * max 2 1) = postings.take 2 := rfl
      have docs : (docBytes (postings.take 2)).length = 3 := by cbv
      have counts : (countBytes (postings.take 2)).length = 2 := by cbv
      have extents : (extentBytes (postings.take 2)).length = 5 := by cbv
      refine ⟨addressable, bytes, rfl, room, layout, parsed, summary, ?_⟩
      simp only [front, docs, counts, extents, second, table, List.getElem_singleton] at place
      rw [table, List.map_singleton, place]

end Block

end Concordance
