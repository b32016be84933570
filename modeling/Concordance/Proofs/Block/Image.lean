import Concordance.Block.Builder
import Concordance.Proofs.Extent
import Concordance.Proofs.GapList

/-!
# The image of a list of postings

What a builder holds is fixed by the postings it has taken: three streams of
bytes, the skip entries between the groups, and the summary.  `Builder.of` says
so in one expression, and `add_of` shows that adding a posting keeps it.
-/

namespace Concordance

namespace Block

/-! ## The streams -/

/-- The documents of some postings. -/
def docsOf (postings : List Posting) : List DocId := postings.map Posting.doc

/-- The stream of documents. -/
def docBytes (postings : List Posting) : List UInt8 :=
  GapList.bytesFrom none (docsOf postings)

/-- The stream of counts. -/
def countBytes (postings : List Posting) : List UInt8 :=
  postings.flatMap fun posting => Varint.encode (storedCount posting.extents)

/-- The bytes of extents behind a start. -/
def spanBytes : Nat → List Extent → List UInt8
  | _, [] => []
  | before, extent :: extents =>
    Varint.encode (extent.start - before) ++ Varint.encode extent.width
      ++ spanBytes extent.start extents

/-- The stream of extents.  Each posting starts anew from the first position. -/
def extentBytes (postings : List Posting) : List UInt8 :=
  postings.flatMap fun posting => spanBytes 0 posting.extents

/-- The last document of some postings. -/
def lastDoc? (postings : List Posting) : Option DocId := (docsOf postings).getLast?

theorem lastDoc?_concat (postings : List Posting) (posting : Posting) :
    lastDoc? (postings ++ [posting]) = some posting.doc := by
  simp [lastDoc?, docsOf]

theorem docBytes_append (front back : List Posting) :
    docBytes (front ++ back) =
      docBytes front ++ GapList.bytesFrom (lastDoc? front) (docsOf back) := by
  unfold docBytes docsOf
  rw [List.map_append, GapList.bytesFrom_append]
  simp [GapList.lastFrom, lastDoc?, docsOf]

theorem countBytes_append (front back : List Posting) :
    countBytes (front ++ back) = countBytes front ++ countBytes back :=
  List.flatMap_append

theorem extentBytes_append (front back : List Posting) :
    extentBytes (front ++ back) = extentBytes front ++ extentBytes back :=
  List.flatMap_append

/-! ## The summary -/

/-- The figures of some postings. -/
def Summary.of (postings : List Posting) : Summary :=
  { docs := postings.length
    total := (postings.map fun posting => posting.extents.length).sum
    largest := (postings.map fun posting => posting.extents.length).foldl max 0 }

theorem Summary.of_concat (postings : List Posting) (posting : Posting) :
    Summary.of (postings ++ [posting]) =
      (Summary.of postings).add posting.extents.length := by
  simp [Summary.of, Summary.add]

/-! ## The skip entries -/

/-- The place in the streams behind the first so many postings. -/
def placeAt (postings : List Posting) (number : Nat) : SkipEntry :=
  { lastDoc := (lastDoc? (postings.take number)).getD DocId.zero
    docsOffset := (docBytes (postings.take number)).length
    countsOffset := (countBytes (postings.take number)).length
    extentsOffset := (extentBytes (postings.take number)).length }

theorem placeAt_append {front : List Posting} {number : Nat} (back : List Posting)
    (inside : number ≤ front.length) :
    placeAt (front ++ back) number = placeAt front number := by
  unfold placeAt
  rw [List.take_append_of_le_length inside]

/-- The skip entries between groups of `interval` postings. -/
def places (interval : Nat) (postings : List Posting) : List SkipEntry :=
  (List.range (skipsFor postings.length interval)).map fun group =>
    placeAt postings ((group + 1) * interval)

/-- The bytes of a skip entry behind another one. -/
def skipBytes (before entry : SkipEntry) : List UInt8 :=
  Varint.encode (entry.lastDoc.val - before.lastDoc.val)
    ++ Varint.encode (entry.docsOffset - before.docsOffset)
    ++ Varint.encode (entry.countsOffset - before.countsOffset)
    ++ Varint.encode (entry.extentsOffset - before.extentsOffset)

/-- The bytes of skip entries behind one. -/
def skipBytesFrom : SkipEntry → List SkipEntry → List UInt8
  | _, [] => []
  | before, entry :: entries => skipBytes before entry ++ skipBytesFrom entry entries

theorem skipBytesFrom_concat (before entry : SkipEntry) (entries : List SkipEntry) :
    skipBytesFrom before (entries ++ [entry]) =
      skipBytesFrom before entries ++ skipBytes (entries.getLastD before) entry := by
  induction entries generalizing before with
  | nil => simp [skipBytesFrom]
  | cons first entries induction =>
      rw [List.cons_append, skipBytesFrom, skipBytesFrom, induction, List.append_assoc,
        List.getLastD_cons]

/-- A group that is full gets its skip entry when the next one begins. -/
theorem skipsFor_succ (number interval : Nat) :
    skipsFor (number + 1) interval =
      if number ≠ 0 ∧ number % interval = 0 then skipsFor number interval + 1
      else skipsFor number interval := by
  cases number with
  | zero => simp [skipsFor]
  | succ number =>
      simp only [skipsFor, Nat.add_sub_cancel]
      by_cases full : (number + 1) % interval = 0
      · rw [if_pos ⟨Nat.succ_ne_zero number, full⟩]
        exact Nat.succ_div_of_mod_eq_zero full
      · rw [if_neg (fun both => full both.2)]
        exact Nat.succ_div_of_mod_ne_zero full

/-- A new group begins where the groups before it are all full. -/
theorem skipsFor_mul {number interval : Nat} (occupied : number ≠ 0)
    (full : number % interval = 0) :
    (skipsFor number interval + 1) * interval = number := by
  have step := skipsFor_succ number interval
  rw [if_pos ⟨occupied, full⟩] at step
  rw [← step]
  simp only [skipsFor, Nat.add_sub_cancel]
  exact Nat.div_mul_cancel (Nat.dvd_of_mod_eq_zero full)

theorem mul_le_of_lt_skipsFor {number interval group : Nat}
    (inside : group < skipsFor number interval) : (group + 1) * interval ≤ number - 1 := by
  unfold skipsFor at inside
  calc
    (group + 1) * interval ≤ (number - 1) / interval * interval :=
      Nat.mul_le_mul_right _ inside
    _ ≤ number - 1 := Nat.div_mul_le_self _ _

theorem places_concat (interval : Nat) (postings : List Posting) (posting : Posting) :
    places interval (postings ++ [posting]) =
      if postings.length ≠ 0 ∧ postings.length % interval = 0 then
        places interval postings ++ [placeAt postings postings.length]
      else places interval postings := by
  have kept : ∀ group ∈ List.range (skipsFor postings.length interval),
      placeAt (postings ++ [posting]) ((group + 1) * interval) =
        placeAt postings ((group + 1) * interval) := by
    intro group member
    have inside := mul_le_of_lt_skipsFor (List.mem_range.mp member)
    exact placeAt_append _ (by omega)
  unfold places
  rw [List.length_append, List.length_singleton, skipsFor_succ]
  split
  · rename_i opened
    rw [List.range_succ, List.map_append, List.map_congr_left kept, List.map_singleton,
      skipsFor_mul opened.1 opened.2, placeAt_append _ (Nat.le_refl _)]
  · exact List.map_congr_left kept

theorem length_places (interval : Nat) (postings : List Posting) :
    (places interval postings).length = skipsFor postings.length interval := by
  simp [places]

/-! ## The builder -/

/-- The builder that has taken some postings. -/
def Builder.of (interval : Nat) (postings : List Posting) : Builder :=
  { interval := interval
    summary := Summary.of postings
    docs := ⟨lastDoc? postings, (docBytes postings).toArray⟩
    counts := (countBytes postings).toArray
    extents := (extentBytes postings).toArray
    skips := (skipBytesFrom SkipEntry.origin (places interval postings)).toArray
    skipCount := skipsFor postings.length interval
    lastSkip := (places interval postings).getLastD SkipEntry.origin }

namespace Builder

theorem new_eq_of (interval : Nat) : new interval = of (max interval 1) [] := by
  simp [new, of, Summary.of, Summary.empty, GapWriter.empty, lastDoc?, docsOf, docBytes,
    GapList.bytesFrom, countBytes, extentBytes, places, skipsFor, skipBytesFrom]

theorem pushExtents_eq (before : Nat) (extents : List Extent) (bytes : Array UInt8) :
    pushExtents before extents bytes = bytes ++ spanBytes before extents := by
  induction extents generalizing before bytes with
  | nil => simp [pushExtents, spanBytes]
  | cons extent extents induction =>
      rw [pushExtents, induction, spanBytes]
      apply Array.toList_inj.mp
      simp

/-- The skip entry that is due before the next document. -/
theorem pushSkip_of {interval : Nat} {postings : List Posting} {last : DocId}
    (ends : lastDoc? postings = some last) :
    (of interval postings).pushSkip last =
      { of interval postings with
        skips := (skipBytesFrom SkipEntry.origin
          (places interval postings ++ [placeAt postings postings.length])).toArray
        skipCount := skipsFor postings.length interval + 1
        lastSkip := placeAt postings postings.length } := by
  have place : placeAt postings postings.length =
      ⟨last, (docBytes postings).length, (countBytes postings).length,
        (extentBytes postings).length⟩ := by
    simp [placeAt, ends]
  rw [skipBytesFrom_concat, place]
  simp only [pushSkip, of, List.size_toArray, skipBytes]
  congr 1
  apply Array.toList_inj.mp
  simp

/-- What a builder asks of the next posting behind its last document. -/
structure Follows (ending : Option DocId) (doc : DocId) (extents : List Extent) : Prop where
  above : ∀ last, ending = some last → last < doc
  occurs : extents ≠ []
  ordered : Extent.WellOrdered extents

/-- A posting passes the check or is refused as an argument out of order. -/
theorem check_cases (builder : Builder) (doc : DocId) (extents : List Extent) :
    (builder.check doc extents = .ok () ∧ Follows builder.lastDoc doc extents) ∨
      ∃ cause, builder.check doc extents = .error cause ∧
        cause.kind = .invalidArgument ∧ ¬Follows builder.lastDoc doc extents := by
  unfold check
  by_cases empty : extents = []
  · subst empty
    exact .inr ⟨_, rfl, rfl, fun follows => follows.occurs rfl⟩
  have notEmpty : extents.isEmpty = false := by simpa using empty
  rw [notEmpty]
  cases ordered : Extent.inOrder 0 extents with
  | false =>
      have disordered : ¬Extent.WellOrdered extents := by
        rw [← Extent.inOrder_zero_iff, ordered]
        exact Bool.false_ne_true
      have refused : ∀ ending, ¬Follows ending doc extents :=
        fun _ follows => disordered follows.ordered
      cases builder.lastDoc with
      | none => exact .inr ⟨.extentsNotOrdered doc, rfl, rfl, refused _⟩
      | some last =>
          by_cases behind : doc ≤ last
          · simp only [if_pos behind]
            exact .inr ⟨.docNotAfter doc last, rfl, rfl, refused _⟩
          · simp only [if_neg behind]
            exact .inr ⟨.extentsNotOrdered doc, rfl, rfl, refused _⟩
  | true =>
      have wellOrdered := Extent.inOrder_zero_iff.mp ordered
      cases builder.lastDoc with
      | none =>
          refine .inl ⟨rfl, ?_, empty, wellOrdered⟩
          intro last absent
          cases absent
      | some last =>
          by_cases behind : doc ≤ last
          · simp only [if_pos behind]
            refine .inr ⟨.docNotAfter doc last, rfl, rfl, ?_⟩
            intro follows
            exact DocId.not_le.mpr (follows.above last rfl) behind
          · simp only [if_neg behind]
            refine .inl ⟨rfl, ?_, empty, wellOrdered⟩
            intro other same
            cases same
            exact DocId.not_le.mp behind

theorem check_follows {builder : Builder} {doc : DocId} {extents : List Extent}
    (follows : Follows builder.lastDoc doc extents) : builder.check doc extents = .ok () := by
  rcases check_cases builder doc extents with ⟨passed, _⟩ | ⟨_, _, _, refused⟩
  · exact passed
  · exact absurd follows refused

theorem openGroup_of (interval : Nat) (postings : List Posting) (posting : Posting) :
    (of interval postings).openGroup =
      { of interval postings with
        skips := (skipBytesFrom SkipEntry.origin
          (places interval (postings ++ [posting]))).toArray
        skipCount := skipsFor (postings.length + 1) interval
        lastSkip := (places interval (postings ++ [posting])).getLastD SkipEntry.origin } := by
  unfold openGroup
  rw [places_concat, skipsFor_succ]
  cases ends : lastDoc? postings with
  | none =>
      have ends' : (of interval postings).lastDoc = none := ends
      have none : postings = [] := by simpa [lastDoc?, docsOf] using ends
      subst none
      rfl
  | some last =>
      have ends' : (of interval postings).lastDoc = some last := ends
      have occupied : postings.length ≠ 0 := by
        intro empty
        rw [List.length_eq_zero_iff.mp empty] at ends
        cases ends
      rw [ends']
      by_cases full : postings.length % interval = 0
      · have opens : (of interval postings).opensGroup = true := by
          simpa [opensGroup, of, Summary.of] using full
        rw [if_pos ⟨occupied, full⟩, if_pos ⟨occupied, full⟩]
        simp only [if_pos opens, pushSkip_of ends, List.getLastD_concat]
      · have closed : ¬(of interval postings).opensGroup = true := by
          simpa [opensGroup, of, Summary.of] using full
        rw [if_neg (fun both => full both.2), if_neg (fun both => full both.2)]
        simp only [if_neg closed]
        rfl

/-- Adding a posting that follows the others gives the builder that has taken
it too. -/
theorem add_of {interval : Nat} {postings : List Posting} {posting : Posting}
    (follows : Follows (lastDoc? postings) posting.doc posting.extents) :
    (of interval postings).add posting.doc posting.extents =
      .ok (of interval (postings ++ [posting])) := by
  have pushed := GapList.push_above (of interval postings).docs follows.above
  have passed : (of interval postings).check posting.doc posting.extents = .ok () :=
    check_follows follows
  unfold add
  rw [passed, openGroup_of interval postings posting]
  simp only [bind, Except.bind]
  rw [pushed]
  simp only [pure, Except.pure, Except.ok.injEq]
  have docs : docBytes (postings ++ [posting]) =
      docBytes postings ++ Varint.encode (GapList.gap (lastDoc? postings) posting.doc) := by
    rw [docBytes_append]
    simp [docsOf, GapList.bytesFrom]
  have counts : countBytes (postings ++ [posting]) =
      countBytes postings ++ Varint.encode (storedCount posting.extents) := by
    rw [countBytes_append]
    simp [countBytes]
  have extents : extentBytes (postings ++ [posting]) =
      extentBytes postings ++ spanBytes 0 posting.extents := by
    rw [extentBytes_append]
    simp [extentBytes]
  simp only [of, docs, counts, extents, lastDoc?_concat, Summary.of_concat, pushExtents_eq,
    List.toArray_appendList, List.length_append, List.length_singleton]

end Builder

end Block

end Concordance
