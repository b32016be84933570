/-!
# Finite maps from texts

The parameters of a node, the overrides of a configuration, a table of counts
and the cache of a session are finite maps from texts.  Their entries stand in
ascending order of the keys, so that two maps with the same content are equal
and every listing is canonical.
-/

namespace Concordance

/-- Put a value under a key into entries that ascend. -/
def putEntry {α : Type} (key : String) (value : α) :
    List (String × α) → List (String × α)
  | [] => [(key, value)]
  | (other, held) :: entries =>
    if key < other then (key, value) :: (other, held) :: entries
    else if key = other then (key, value) :: entries
    else (other, held) :: putEntry key value entries

theorem fst_mem_putEntry {α : Type} {key : String} {value : α}
    {entries : List (String × α)} {entry : String × α}
    (member : entry ∈ putEntry key value entries) :
    entry.1 = key ∨ entry ∈ entries := by
  induction entries with
  | nil => simp_all [putEntry]
  | cons head entries induction =>
      unfold putEntry at member
      split at member
      · rcases List.mem_cons.mp member with rfl | inside
        · exact Or.inl rfl
        · exact Or.inr inside
      · split at member
        · rcases List.mem_cons.mp member with rfl | inside
          · exact Or.inl rfl
          · exact Or.inr (List.mem_cons_of_mem _ inside)
        · rcases List.mem_cons.mp member with rfl | inside
          · exact Or.inr List.mem_cons_self
          · rcases induction inside with sameKey | old
            · exact Or.inl sameKey
            · exact Or.inr (List.mem_cons_of_mem _ old)

theorem pairwise_putEntry {α : Type} (key : String) (value : α)
    {entries : List (String × α)}
    (ascending : entries.Pairwise fun first second => first.1 < second.1) :
    (putEntry key value entries).Pairwise fun first second => first.1 < second.1 := by
  induction entries with
  | nil => simp [putEntry]
  | cons head entries induction =>
      obtain ⟨other, held⟩ := head
      obtain ⟨headLess, tailAscending⟩ := List.pairwise_cons.mp ascending
      unfold putEntry
      split
      · rename_i less
        refine List.pairwise_cons.mpr ⟨?_, ascending⟩
        intro entry member
        rcases List.mem_cons.mp member with rfl | inside
        · exact less
        · exact String.lt_trans less (headLess entry inside)
      · rename_i notLess
        split
        · rename_i same
          subst same
          exact List.pairwise_cons.mpr ⟨headLess, tailAscending⟩
        · rename_i different
          refine List.pairwise_cons.mpr ⟨?_, induction tailAscending⟩
          intro entry member
          rcases fst_mem_putEntry member with sameKey | old
          · rw [sameKey]
            have otherLe : other ≤ key := String.not_lt.mp notLess
            refine String.not_le.mp fun keyLe => ?_
            exact different (String.le_antisymm keyLe otherLe)
          · exact headLess entry old

theorem lookup_entry {α : Type} (key other : String) (value : α)
    (entries : List (String × α)) :
    ((key, value) :: entries).lookup other =
      if other = key then some value else entries.lookup other := by
  by_cases same : other = key
  · subst same
    simp
  · have unequal : (other == key) = false := beq_eq_false_iff_ne.mpr same
    rw [List.lookup_cons, unequal, if_neg same]

theorem lookup_putEntry {α : Type} (key other : String) (value : α)
    (entries : List (String × α)) :
    (putEntry key value entries).lookup other =
      if other = key then some value else entries.lookup other := by
  induction entries with
  | nil => exact lookup_entry key other value []
  | cons head entries induction =>
      obtain ⟨first, held⟩ := head
      unfold putEntry
      split
      · exact lookup_entry key other value _
      · split
        · rename_i same
          subst same
          simp only [lookup_entry]
          split <;> rfl
        · rename_i different
          simp only [lookup_entry, induction]
          by_cases found : other = first
          · have unequal : other ≠ key := fun same => different (same ▸ found)
            rw [if_pos found, if_neg unequal, if_pos found]
          · simp only [if_neg found]

/-- A finite map from texts, its entries in ascending order of the keys. -/
structure TextMap (α : Type) where
  entries : List (String × α)
  ascending : entries.Pairwise fun first second => first.1 < second.1

namespace TextMap

variable {α : Type}

def empty : TextMap α := ⟨[], List.Pairwise.nil⟩

instance : Inhabited (TextMap α) := ⟨empty⟩

/-- The value under a key. -/
def get? (map : TextMap α) (key : String) : Option α := map.entries.lookup key

/-- Put a value under a key, in place of the one there. -/
def insert (map : TextMap α) (key : String) (value : α) : TextMap α :=
  ⟨putEntry key value map.entries, pairwise_putEntry key value map.ascending⟩

theorem get?_insert (map : TextMap α) (key other : String) (value : α) :
    (map.insert key value).get? other =
      if other = key then some value else map.get? other :=
  lookup_putEntry key other value map.entries

/-- Take the value under a key out. -/
def erase (map : TextMap α) (key : String) : TextMap α :=
  ⟨map.entries.filter fun entry => entry.1 != key, map.ascending.filter _⟩

def size (map : TextMap α) : Nat := map.entries.length

def isEmpty (map : TextMap α) : Bool := map.entries.isEmpty

/-- The map with these entries; of two under one key the later one counts. -/
def ofList (entries : List (String × α)) : TextMap α :=
  entries.foldl (fun map entry => map.insert entry.1 entry.2) empty

end TextMap

end Concordance
