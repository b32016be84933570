import Concordance.Block.Layout

/-!
# Groups of a block

A skip entry opens a group of postings.  Whoever enters a group needs the
document in front of it and the three streams from the group on.  As each entry
lies behind the one before it, the streams of a group are cut from those of the
group before.
-/

namespace Concordance

namespace Block

/-- The place where a group starts. -/
structure Group where
  /-- The last document in front of the group. -/
  lastDoc : DocId
  /-- The stream of documents from the group on. -/
  docs : List UInt8
  counts : List UInt8
  extents : List UInt8

namespace Group

/-- The group that a skip entry opens in whole streams. -/
def ofEntry (docs counts extents : List UInt8) (entry : SkipEntry) : Group :=
  { lastDoc := entry.lastDoc
    docs := docs.drop entry.docsOffset
    counts := counts.drop entry.countsOffset
    extents := extents.drop entry.extentsOffset }

/-- The group that a skip entry opens, cut from the group of an entry before it. -/
def next (group : Group) (place entry : SkipEntry) : Group :=
  { lastDoc := entry.lastDoc
    docs := group.docs.drop (entry.docsOffset - place.docsOffset)
    counts := group.counts.drop (entry.countsOffset - place.countsOffset)
    extents := group.extents.drop (entry.extentsOffset - place.extentsOffset) }

/-- In no stream does the first skip entry lie behind the second one. -/
def Reaches (first second : SkipEntry) : Prop :=
  first.docsOffset ≤ second.docsOffset ∧ first.countsOffset ≤ second.countsOffset ∧
    first.extentsOffset ≤ second.extentsOffset

theorem next_ofEntry (docs counts extents : List UInt8) {place entry : SkipEntry}
    (reaches : Reaches place entry) :
    (ofEntry docs counts extents place).next place entry =
      ofEntry docs counts extents entry := by
  obtain ⟨docsReach, countsReach, extentsReach⟩ := reaches
  simp only [next, ofEntry, List.drop_drop, Nat.add_sub_cancel' docsReach,
    Nat.add_sub_cancel' countsReach, Nat.add_sub_cancel' extentsReach]

/-- The groups that skip entries open, behind those found already.  The last
one found is that of the entry `place`. -/
def collect (group : Group) (place : SkipEntry) (found : Array Group) :
    List SkipEntry → Array Group
  | [] => found
  | entry :: entries =>
    let behind := group.next place entry
    collect behind entry (found.push behind) entries

/-- Collecting cuts every group as if from the whole streams. -/
theorem toList_collect (docs counts extents : List UInt8) (place : SkipEntry)
    (found : Array Group) (entries : List SkipEntry)
    (ascending : (place :: entries).Pairwise Reaches) :
    (collect (ofEntry docs counts extents place) place found entries).toList =
      found.toList ++ entries.map (ofEntry docs counts extents) := by
  induction entries generalizing place found with
  | nil => simp [collect]
  | cons entry entries induction =>
      obtain ⟨first, later⟩ := List.pairwise_cons.mp ascending
      have reaches := first entry List.mem_cons_self
      unfold collect
      simp only [next_ofEntry docs counts extents reaches]
      rw [induction entry _ later]
      simp

end Group

/-- The groups of a block behind the first one. -/
def Layout.groups (layout : Layout) : List Group :=
  (Group.collect ⟨DocId.zero, layout.docs, layout.counts, layout.extents⟩ SkipEntry.origin #[]
    layout.skips).toList

/-- The last of the leading groups with all documents in front of them below a
target, and the number of postings in front of it.  The group `found` with
`before` postings in front of it is known to be one. -/
def Group.furthest (interval : Nat) (target : DocId) (found : Group) (before : Nat) :
    List Group → Group × Nat
  | [] => (found, before)
  | group :: later =>
    if group.lastDoc < target then furthest interval target group (before + interval) later
    else (found, before)

end Block

end Concordance
