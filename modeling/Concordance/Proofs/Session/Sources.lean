import Concordance.Proofs.Compile.Planting
import Concordance.Proofs.Session.Scans

/-!
# Where statistics come from

The statistics of a node come from a block, from a table of counts or from a
scan.  A table keeps consistent figures only, and a scan collects matches that
occur.  The head of a block may give it documents and no occurrence in any of
them; all other figures of blocks are consistent.
-/

namespace Concordance

/-! ## Scans -/

namespace Forest

variable {law : Leaf.Law} {forest : Forest} {offered : Capabilities} {weight start floor : Nat}
  {handle : Handle}

section Counting

variable (poised : Poised law forest offered weight start handle floor)
  (counts : offered.count = true) (light : weight < 4294967296)

include poised counts light

/-- A cursor that counts has a count of the document on which it stands. -/
theorem Poised.counted {doc : DocId} (shown : forest.position handle = some doc) :
    ∃ count, forest.count handle = .ok count ∧ 0 < count := by
  obtain ⟨found, whole, count, _⟩ := poised.whole.shows doc shown
  exact ⟨found.count, count counts, whole.occurs counts light⟩

/-- A full scan finds matches that occur. -/
theorem scanFrom_occurring {found : Array (DocId × Nat)}
    (occurring : Statistics.Occurring found.toList) :
    (scanFrom handle floor found).Ends forest
      (fun result _ => Statistics.Occurring result.toList) law.Fails := by
  -- Each match lies behind the floor, and the next floor behind the match.
  generalize measure : 18446744073709551616 - floor = left
  induction left using Nat.strongRecOn generalizing forest floor found with
  | ind left induction =>
      rw [scanFrom]
      apply Step.Ends.behind (Step.get_run forest)
      cases shown : forest.position handle with
      | none => exact Step.ends_done rfl occurring
      | some doc =>
          obtain ⟨count, known, occurs⟩ := poised.counted counts light shown
          have behind := poised.reached shown
          have bound := doc.val_lt
          dsimp only
          rw [if_pos behind]
          apply Step.Ends.behind (Step.ofExcept_run known forest)
          apply (movePast_poised poised (Nat.le_succ_of_le behind)).bind
          rintro _ after ⟨there, _⟩
          exact induction (18446744073709551616 - (doc.val + 1)) (by omega) there
            (occurring.push occurs) rfl

/-- So does a visit to ascending documents. -/
theorem visit_occurring {sample : List DocId}
    (ascending : sample.Pairwise fun first second => first < second)
    (behind : ∀ doc ∈ sample, floor ≤ doc.val) {found : Array (DocId × Nat)}
    (occurring : Statistics.Occurring found.toList) :
    (visit handle sample found).Ends forest
      (fun result _ => Statistics.Occurring result.toList) law.Fails := by
  induction sample generalizing forest floor found with
  | nil => exact Step.ends_done rfl occurring
  | cons doc sample induction =>
      obtain ⟨above, rest⟩ := List.pairwise_cons.mp ascending
      obtain ⟨here, _⟩ := List.forall_mem_cons.mp behind
      have later : ∀ other ∈ sample, doc.val ≤ other.val :=
        fun other member => Nat.le_of_lt (above other member)
      rw [visit]
      apply (moveTo_drives _ forest _ _ _ handle floor doc (Nat.lt_succ_self _) poised here).bind
      rintro _ middle ⟨there, _⟩
      apply Step.Ends.behind (Step.get_run middle)
      cases shown : middle.position handle with
      | none => exact Step.ends_done rfl occurring
      | some current =>
          dsimp only
          by_cases same : current = doc
          · obtain ⟨count, known, occurs⟩ := there.counted counts light shown
            rw [if_pos same]
            apply Step.Ends.behind (Step.ofExcept_run known middle)
            exact induction there rest later (occurring.push occurs)
          · rw [if_neg same]
            exact induction there rest later occurring

end Counting

theorem scan_occurring (poised : Poised law forest offered weight start handle 0)
    (counts : offered.count = true) (light : weight < 4294967296) :
    (scan handle).Ends forest (fun found _ => Statistics.Occurring found) law.Fails := by
  unfold scan
  apply (scanFrom_occurring poised counts light Statistics.occurring_nil).bind
  exact fun found after occurring => Step.ends_done rfl occurring

theorem sampledScan_occurring (poised : Poised law forest offered weight start handle 0)
    (counts : offered.count = true) (light : weight < 4294967296) {sample : List DocId}
    (ascending : sample.Pairwise fun first second => first < second) :
    (sampledScan handle sample).Ends forest (fun found _ => Statistics.Occurring found)
      law.Fails := by
  unfold sampledScan
  apply (visit_occurring poised counts light ascending (fun _ _ => Nat.zero_le _)
    Statistics.occurring_nil).bind
  exact fun found after occurring => Step.ends_done rfl occurring

end Forest

/-! ## Tables of counts -/

namespace CountTable

theorem readEntry_consistent {collection : Collection} {line : List Char} {entry : Statistics}
    (read : readEntry collection line = .ok entry) : entry.isConsistent = true := by
  unfold readEntry at read
  split at read
  · obtain ⟨frequency, _, read⟩ := Step.ok_of_bind read
    obtain ⟨maximum, _, read⟩ := Step.ok_of_bind read
    obtain ⟨documents, _, read⟩ := Step.ok_of_bind read
    dsimp only at read
    split at read
    · rename_i consistent
      cases read
      exact consistent
    · cases read
  · cases read

/-- Entries whose figures are consistent. -/
def Consistent (entries : TextMap Statistics) : Prop :=
  ∀ signature figures, entries.get? signature = some figures → figures.isConsistent = true

theorem Consistent.insert {entries : TextMap Statistics} (consistent : Consistent entries)
    {entry : Statistics} (fits : entry.isConsistent = true) (key : String) :
    Consistent (entries.insert key entry) := by
  intro signature figures held
  rw [TextMap.get?_insert] at held
  by_cases same : signature = key
  · rw [if_pos same] at held
    cases held
    exact fits
  · rw [if_neg same] at held
    exact consistent signature figures held

theorem readLines_consistent {collection : Collection} {lines : List (List Char)} {number : Nat}
    {entries read : TextMap Statistics} (consistent : Consistent entries)
    (done : readLines collection number lines entries = .ok read) : Consistent read := by
  induction lines generalizing number entries with
  | nil =>
      cases done
      exact consistent
  | cons line lines induction =>
      rw [readLines] at done
      split at done
      · exact induction consistent done
      · cases entered : readEntry collection (dropTrailing (· == '\r') line) with
        | error fault =>
            rw [entered] at done
            cases done
        | ok entry =>
            rw [entered] at done
            exact induction (consistent.insert (readEntry_consistent entered) _) done

/-- A table that was read holds consistent figures only. -/
theorem load_consistent {file : StoredFile} {collection : Collection} {table : CountTable}
    (loaded : load file collection = .ok table) : Consistent table.entries := by
  unfold load at loaded
  cases held : file.text with
  | error fault =>
      rw [held] at loaded
      cases loaded
  | ok text =>
      rw [held] at loaded
      dsimp only at loaded
      split at loaded
      · cases loaded
      · unfold parse at loaded
        obtain ⟨entries, read, same⟩ := Step.ok_of_bind loaded
        cases same
        refine readLines_consistent ?_ read
        intro signature figures impossible
        cases impossible

end CountTable

/-! ## Where leaves come from -/

namespace Forest

variable {key : String} {forest after : Forest} {handle : Handle}

theorem cursor_addComposite {combination : Combination} {children : List Handle}
    (added : addComposite key combination children forest = .ok handle after) :
    ∃ composite, after.cursor handle = .composite composite := by
  obtain ⟨_, _, _, added⟩ := Step.bind_eq_ok added
  obtain ⟨_, _, _, added⟩ := Step.bind_eq_ok added
  obtain ⟨_, middle, _, added⟩ := Step.bind_eq_ok added
  cases added
  exact ⟨_, cursor_push_self middle _⟩

theorem cursor_addFeature {children : List Handle} {estimator : EstimatorId} {scorer : String}
    (added : addFeature key children estimator scorer forest = .ok handle after) :
    ∃ wrapper, after.cursor handle = .feature wrapper := by
  unfold addFeature at added
  split at added
  · obtain ⟨_, _, _, added⟩ := Step.bind_eq_ok added
    obtain ⟨_, middle, _, added⟩ := Step.bind_eq_ok added
    cases added
    exact ⟨_, cursor_push_self middle _⟩
  · cases added

theorem cursor_addSource? {index : Index} {name : Key} {withExtents : Bool}
    (added : addSource? index name withExtents forest = .ok (some handle) after) :
    ∃ block leaf, index.block? name = .ok (some block) ∧
      Leaf.open? name block withExtents = .ok leaf ∧ after.cursor handle = .leaf leaf := by
  unfold addSource? at added
  obtain ⟨held, _, known, found⟩ := Step.bind_eq_ok added
  obtain ⟨stored, rfl⟩ := Step.ofExcept_eq_ok known
  cases held with
  | none => cases found
  | some block =>
      dsimp only at found
      obtain ⟨place, _, made, same⟩ := Step.bind_eq_ok found
      cases same
      unfold addLeaf at made
      obtain ⟨leaf, middle, opened, placed⟩ := Step.bind_eq_ok made
      cases placed
      exact ⟨block, leaf, stored, (Step.ofExcept_eq_ok opened).1, cursor_push_self middle _⟩

end Forest

/-- A leaf that a node is compiled to stands in the block of the key that the node names. -/
theorem Implementation.build_leaf {implementation : Implementation} {request : BuildRequest}
    {forest after : Forest} {handle : Handle} {leaf : Leaf}
    (builtIn : ∀ build, implementation ≠ .custom build)
    (built : implementation.build request forest = .ok handle after)
    (here : after.cursor handle = .leaf leaf) :
    ∃ withExtents block, implementation = .source withExtents ∧
      request.index.block? (Key.ofText request.node.leafKey) = .ok (some block) ∧
      Leaf.open? (Key.ofText request.node.leafKey) block withExtents = .ok leaf := by
  have combined {key : String} {combination : Combination} {children : List Handle}
      {middle : Forest}
      (added : Forest.addComposite key combination children middle = .ok handle after) : False := by
    obtain ⟨composite, other⟩ := Forest.cursor_addComposite added
    cases here.symm.trans other
  unfold Implementation.build at built
  cases implementation with
  | source withExtents =>
      dsimp only at built
      obtain ⟨named, _, asked, given⟩ := Step.bind_eq_ok built
      obtain ⟨found, middle, sought, made⟩ := Step.bind_eq_ok given
      cases found with
      | none =>
          cases made
          cases here.symm.trans (Forest.cursor_push_self middle _)
      | some place =>
          cases made
          obtain ⟨block, other, held, opened, there⟩ := Forest.cursor_addSource? sought
          cases here.symm.trans there
          rw [← BuildRequest.leafKey_eq (Step.ofExcept_eq_ok asked).1]
          exact ⟨withExtents, block, rfl, held, opened⟩
  | window order =>
      obtain ⟨_, _, _, added⟩ := Step.bind_eq_ok built
      exact (combined added).elim
  | synonym => exact (combined built).elim
  | conjunction => exact (combined built).elim
  | union => exact (combined built).elim
  | combine => exact (combined built).elim
  | feature =>
      obtain ⟨wrapper, other⟩ := Forest.cursor_addFeature built
      cases here.symm.trans other
  | null =>
      cases built
      cases here.symm.trans (Forest.cursor_push_self forest _)
  | custom build => exact absurd rfl (builtIn build)

/-- So does one that a compiler of built-in implementations makes. -/
theorem Compiler.build_leaf {compiler : Compiler} (builtIn : compiler.registry.BuiltIn)
    {node : Node} {bench after : Workbench} {handle : Handle} {leaf : Leaf}
    (built : compiler.build node bench = .ok handle after)
    (here : after.forest.cursor handle = .leaf leaf) :
    ∃ withExtents block,
      compiler.registry.resolve? node.operator = some (.source withExtents) ∧
      compiler.index.block? (Key.ofText node.leafKey) = .ok (some block) ∧
      Leaf.open? (Key.ofText node.leafKey) block withExtents = .ok leaf := by
  obtain ⟨_, _, request, _, rfl, _, index, made⟩ := Compiler.build_eq_ok built
  obtain ⟨implementation, resolved, placed⟩ := Registry.build_eq_ok made
  obtain ⟨withExtents, block, rfl, held, opened⟩ :=
    Implementation.build_leaf (builtIn _ _ resolved) placed here
  rw [index] at held
  exact ⟨withExtents, block, resolved, held, opened⟩

/-! ## Figures of blocks -/

/-- A block that has documents but no occurrence in any of them, as its figures go. -/
structure Index.Understates (index : Index) (key : Key) (figures : Statistics) : Prop where
  stored : ∃ block layout, index.block? key = .ok (some block) ∧
    Block.Layout.parse block = .ok layout ∧
    layout.summary = ⟨figures.documents, figures.frequency, figures.maximum⟩
  documents : 0 < figures.documents
  frequency : figures.documents ≤ figures.frequency
  maximum : figures.maximum = 0

theorem Index.Understates.not_isConsistent {index : Index} {key : Key} {figures : Statistics}
    (understates : index.Understates key figures) : figures.isConsistent ≠ true := by
  intro consistent
  obtain ⟨_, _, zero⟩ := Statistics.isConsistent_iff.mp consistent
  have documents := understates.documents
  have maximum := understates.maximum
  omega

theorem Block.Summary.isConsistent_iff {summary : Summary} :
    summary.isConsistent = true ↔ summary.docs ≤ summary.total ∧
      summary.largest ≤ summary.total ∧ (summary.docs = 0 ↔ summary.total = 0) := by
  have both : ((summary.docs == 0) == (summary.total == 0)) = true ↔
      (summary.docs = 0 ↔ summary.total = 0) := by
    rw [beq_iff_eq, Bool.eq_iff_iff, beq_iff_eq, beq_iff_eq]
  simp only [isConsistent, Bool.and_eq_true, decide_eq_true_eq, both, and_assoc]

/-- The figures of a block that was parsed are consistent, unless it understates them. -/
theorem Leaf.statistics_consistent {index : Index} {key : Key} {block : List UInt8}
    {withExtents : Bool} {leaf : Leaf} (held : index.block? key = .ok (some block))
    (opened : open? key block withExtents = .ok leaf) (collection : Collection) :
    (leaf.statistics collection).isConsistent = true ∨
      index.Understates key (leaf.statistics collection) := by
  have parsed : Block.Layout.parse block = .ok leaf.reader.layout := by
    rcases open?_sound key block withExtents with ⟨other, again, _, parsed, _⟩ | ⟨_, refused, _⟩
    · cases opened.symm.trans again
      exact parsed
    · cases opened.symm.trans refused
  have proper := Block.Layout.proper_of_parse parsed
  obtain ⟨few, below, zero⟩ := Block.Summary.isConsistent_iff.mp proper.consistent
  by_cases understated : leaf.reader.layout.summary.largest = 0 ∧
      0 < leaf.reader.layout.summary.docs
  · exact .inr ⟨⟨block, _, held, parsed, rfl⟩, understated.2, few, understated.1⟩
  · refine .inl (Statistics.isConsistent_iff.mpr ⟨few, below, ?_⟩)
    change leaf.reader.layout.summary.largest = 0 ↔ leaf.reader.layout.summary.docs = 0
    omega

end Concordance
