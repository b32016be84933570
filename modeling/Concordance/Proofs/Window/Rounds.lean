import Mathlib.Data.List.Forall2
import Concordance.Proofs.Extent
import Concordance.Window

/-!
# Rounds of an unordered search

An unordered search goes on in rounds: it looks at what the heads of all lists cover, keeps
that if it is near enough, and drops the head that starts first.  It needs no bound on the
rounds, since the lists run out.  Whatever holds of its windows is shown by induction on them.
-/

namespace Concordance

namespace Window

variable {width : Nat}

theorem exists_related {α β : Type} {related : α → β → Prop} {firsts : List α}
    {seconds : List β} (pairs : List.Forall₂ related firsts seconds) {first : α}
    (member : first ∈ firsts) : ∃ second ∈ seconds, related first second := by
  induction pairs with
  | nil => cases member
  | cons here _ induction =>
      rcases List.mem_cons.mp member with rfl | later
      · exact ⟨_, List.mem_cons_self, here⟩
      · obtain ⟨second, isSecond, there⟩ := induction later
        exact ⟨second, List.mem_cons_of_mem _ isSecond, there⟩

/-- Lists whose extents are all the right way round. -/
def Forward (lists : List (List Extent)) : Prop :=
  ∀ list ∈ lists, ∀ extent ∈ list, extent.start ≤ extent.stop

theorem Forward.sublists {parts wholes : List (List Extent)} (forward : Forward wholes)
    (sublists : List.Forall₂ List.Sublist parts wholes) : Forward parts := by
  intro part member extent inside
  obtain ⟨whole, isWhole, sublist⟩ := exists_related sublists member
  exact forward whole isWhole extent (sublist.mem inside)

/-! ## What the heads cover -/

/-- The stretch of two extents together. -/
def hull (first second : Extent) : Extent :=
  ⟨min first.start second.start, max first.stop second.stop,
    Nat.lt_of_le_of_lt (Nat.min_le_left _ _) first.start_lt,
    Nat.max_lt.mpr ⟨first.stop_lt, second.stop_lt⟩⟩

theorem cover_cons (first : Extent) (extents : List Extent) :
    cover (first :: extents) = some (extents.foldl hull first) := by
  induction extents generalizing first with
  | nil => rfl
  | cons extent extents induction => exact induction (hull first extent)

/-- The least extent around some extents. -/
structure Covers (whole : Extent) (extents : List Extent) : Prop where
  before : ∀ extent ∈ extents, whole.start ≤ extent.start
  beyond : ∀ extent ∈ extents, extent.stop ≤ whole.stop
  starts : ∃ extent ∈ extents, whole.start = extent.start
  stops : ∃ extent ∈ extents, whole.stop = extent.stop

theorem Covers.parts {whole first second : Extent} {extents : List Extent}
    (covers : Covers whole (hull first second :: extents)) :
    Covers whole (first :: second :: extents) := by
  obtain ⟨hullBefore, before⟩ := List.forall_mem_cons.mp covers.before
  obtain ⟨hullBeyond, beyond⟩ := List.forall_mem_cons.mp covers.beyond
  simp only [hull] at hullBefore hullBeyond
  constructor
  · exact List.forall_mem_cons.mpr ⟨by omega, List.forall_mem_cons.mpr ⟨by omega, before⟩⟩
  · exact List.forall_mem_cons.mpr ⟨by omega, List.forall_mem_cons.mpr ⟨by omega, beyond⟩⟩
  · obtain ⟨source, member, starts⟩ := covers.starts
    rcases List.mem_cons.mp member with rfl | inside
    · rcases Nat.le_total first.start second.start with less | less
      · exact ⟨first, by simp, starts.trans (Nat.min_eq_left less)⟩
      · exact ⟨second, by simp, starts.trans (Nat.min_eq_right less)⟩
    · exact ⟨source, by simp [inside], starts⟩
  · obtain ⟨source, member, stops⟩ := covers.stops
    rcases List.mem_cons.mp member with rfl | inside
    · rcases Nat.le_total first.stop second.stop with less | less
      · exact ⟨second, by simp, stops.trans (Nat.max_eq_right less)⟩
      · exact ⟨first, by simp, stops.trans (Nat.max_eq_left less)⟩
    · exact ⟨source, by simp [inside], stops⟩

theorem covers_foldl (first : Extent) (extents : List Extent) :
    Covers (extents.foldl hull first) (first :: extents) := by
  induction extents generalizing first with
  | nil => constructor <;> simp
  | cons extent extents induction => exact (induction (hull first extent)).parts

theorem start_le_of_mem {head : Extent} {later : List Extent}
    (ordered : Extent.WellOrdered (head :: later)) :
    ∀ extent ∈ head :: later, head.start ≤ extent.start :=
  List.forall_mem_cons.mpr ⟨Nat.le_refl _, (List.pairwise_cons.mp ordered.ascending).1⟩

theorem mem_of_mem_heads {head : Extent} {lists : List (List Extent)}
    (isHead : head ∈ heads lists) : ∃ list ∈ lists, head ∈ list := by
  obtain ⟨list, member, first⟩ := List.mem_filterMap.mp isHead
  exact ⟨list, member, List.mem_of_head? first⟩

/-- The heads of lists have a least extent around them. -/
theorem cover_heads {lists : List (List Extent)} (present : lists ≠ [])
    (occupied : ∀ list ∈ lists, list ≠ []) :
    ∃ whole, cover (heads lists) = some whole ∧ Covers whole (heads lists) := by
  cases lists with
  | nil => exact absurd rfl present
  | cons list lists =>
      cases list with
      | nil => exact absurd rfl (occupied [] List.mem_cons_self)
      | cons head later =>
          exact ⟨_, cover_cons head (heads lists), covers_foldl head (heads lists)⟩

/-- Of well-ordered lists nothing starts before their heads. -/
theorem Covers.before_all {whole : Extent} {lists : List (List Extent)}
    (covers : Covers whole (heads lists))
    (wellOrdered : ∀ list ∈ lists, Extent.WellOrdered list) :
    ∀ list ∈ lists, ∀ extent ∈ list, whole.start ≤ extent.start := by
  intro list member extent inside
  cases list with
  | nil => cases inside
  | cons head later =>
      have isHead : head ∈ heads lists := List.mem_filterMap.mpr ⟨head :: later, member, rfl⟩
      exact Nat.le_trans (covers.before head isHead)
        (start_le_of_mem (wellOrdered _ member) extent inside)

theorem Covers.forward {whole : Extent} {lists : List (List Extent)}
    (covers : Covers whole (heads lists)) (forward : Forward lists) :
    whole.start ≤ whole.stop := by
  obtain ⟨head, isHead, starts⟩ := covers.starts
  obtain ⟨list, member, inside⟩ := mem_of_mem_heads isHead
  have turned := forward list member head inside
  have beyond := covers.beyond head isHead
  omega

/-! ## What a round drops -/

theorem dropStart_sublists (start : Nat) (lists : List (List Extent)) :
    List.Forall₂ List.Sublist (dropStart start lists) lists := by
  induction lists with
  | nil => exact .nil
  | cons list lists induction =>
      cases list with
      | nil => exact .cons (List.Sublist.refl _) induction
      | cons head later =>
          rw [dropStart]
          by_cases found : head.start = start
          · rw [if_pos found]
            exact .cons (List.sublist_cons_self _ _)
              (List.forall₂_same.mpr fun other _ => List.Sublist.refl other)
          · rw [if_neg found]
            exact .cons (List.Sublist.refl _) induction

theorem dropStart_wellOrdered {start : Nat} {lists : List (List Extent)}
    (wellOrdered : ∀ list ∈ lists, Extent.WellOrdered list) :
    ∀ list ∈ dropStart start lists, Extent.WellOrdered list := by
  intro list member
  obtain ⟨source, inside, part⟩ := exists_related (dropStart_sublists start lists) member
  exact (wellOrdered source inside).sublist part

theorem dropStart_behind {start floor : Nat} {lists : List (List Extent)}
    (behind : ∀ list ∈ lists, ∀ extent ∈ list, floor ≤ extent.start) :
    ∀ list ∈ dropStart start lists, ∀ extent ∈ list, floor ≤ extent.start := by
  intro list member extent here
  obtain ⟨source, inside, part⟩ := exists_related (dropStart_sublists start lists) member
  exact behind source inside extent (part.mem here)

theorem length_dropStart {start : Nat} {lists : List (List Extent)}
    (leads : ∃ head ∈ heads lists, head.start = start) :
    (dropStart start lists).flatten.length < lists.flatten.length := by
  induction lists with
  | nil =>
      obtain ⟨head, member, _⟩ := leads
      cases member
  | cons list lists induction =>
      cases list with
      | nil => exact induction leads
      | cons head later =>
          rw [dropStart]
          by_cases found : head.start = start
          · rw [if_pos found]
            simp
          · rw [if_neg found]
            obtain ⟨other, member, starts⟩ := leads
            rcases List.mem_cons.mp member with rfl | inside
            · exact absurd starts found
            · have shorter := induction ⟨other, inside, starts⟩
              simp only [List.flatten_cons, List.length_append]
              omega

/-! ## The search -/

/-- What a round keeps of the stretch of the heads. -/
def fitting (width : Nat) (whole : Extent) : List Extent :=
  if whole.stop - whole.start ≤ width then [whole] else []

@[simp]
theorem mem_fitting {window whole : Extent} :
    window ∈ fitting width whole ↔ window = whole ∧ whole.stop - whole.start ≤ width := by
  unfold fitting
  split <;> simp_all

/-- The windows that the rounds over some lists leave, until one of the lists is used up. -/
inductive Rounds (width : Nat) : List (List Extent) → List Extent → Prop where
  | ended {lists : List (List Extent)} (missing : [] ∈ lists) : Rounds width lists []
  | again {lists : List (List Extent)} {windows : List Extent} {whole : Extent}
      (occupied : ∀ list ∈ lists, list ≠ []) (covers : Covers whole (heads lists))
      (forward : whole.start ≤ whole.stop)
      (later : Rounds width (dropStart whole.start lists) windows) :
      Rounds width lists (fitting width whole ++ windows)

theorem mem_of_any_isEmpty {lists : List (List Extent)} :
    lists.any List.isEmpty = true ↔ [] ∈ lists := by
  simp [List.any_eq_true]

theorem occupied_of_not_mem {lists : List (List Extent)} (occupied : [] ∉ lists) :
    ∀ list ∈ lists, list ≠ [] := by
  rintro list member rfl
  exact occupied member

/-- As many rounds as there are extents are enough. -/
theorem sweepUnordered_rounds {limit : Nat} {lists : List (List Extent)} (found : Array Extent)
    (present : lists ≠ []) (forward : Forward lists) (enough : lists.flatten.length ≤ limit) :
    ∃ windows : List Extent, Rounds width lists windows ∧
      sweepUnordered width limit lists found = .ok (found ++ windows.toArray) := by
  induction limit generalizing lists found with
  | zero =>
      have missing : [] ∈ lists := by
        obtain ⟨list, others, rfl⟩ := List.exists_cons_of_ne_nil present
        have length : list.length = 0 := by
          rw [List.flatten_cons, List.length_append] at enough
          omega
        rw [List.length_eq_zero_iff.mp length]
        exact List.mem_cons_self
      exact ⟨[], .ended missing, by simp [sweepUnordered]⟩
  | succ limit induction =>
      rw [sweepUnordered]
      by_cases missing : [] ∈ lists
      · rw [if_pos (mem_of_any_isEmpty.mpr missing)]
        exact ⟨[], .ended missing, by simp⟩
      · rw [if_neg (mem_of_any_isEmpty.not.mpr missing)]
        have occupied := occupied_of_not_mem missing
        obtain ⟨whole, covered, covers⟩ := cover_heads present occupied
        have turned := covers.forward forward
        have sublists := dropStart_sublists whole.start lists
        have shorter := length_dropStart (covers.starts.imp fun _ => And.imp_right Eq.symm)
        have presentRest : dropStart whole.start lists ≠ [] := by
          intro empty
          rw [empty] at sublists
          cases sublists
          exact present rfl
        rw [covered]
        dsimp only
        rw [if_neg (Nat.not_lt.mpr turned)]
        obtain ⟨windows, rounds, same⟩ := induction
          (if whole.stop - whole.start ≤ width then found.push whole else found) presentRest
          (forward.sublists sublists) (by omega)
        refine ⟨_, .again occupied covers turned rounds, ?_⟩
        rw [same, fitting]
        split <;> simp

/-- An unordered search ends, never finds an end before a start, and returns what its rounds
leave. -/
theorem unordered_rounds (width : Nat) {lists : List (List Extent)} (present : lists ≠ [])
    (forward : Forward lists) :
    ∃ windows, unordered width lists = .ok windows ∧ Rounds width lists windows := by
  obtain ⟨windows, rounds, same⟩ :=
    @sweepUnordered_rounds width _ _ #[] present forward (Nat.le_refl _)
  refine ⟨windows, ?_, rounds⟩
  rw [unordered, same]
  simp [Except.map]

/-! ## Windows in order -/

/-- No window starts in front of all extents. -/
theorem Rounds.behind {lists : List (List Extent)} {windows : List Extent}
    (rounds : Rounds width lists windows) {floor : Nat}
    (behind : ∀ list ∈ lists, ∀ extent ∈ list, floor ≤ extent.start) :
    ∀ window ∈ windows, floor ≤ window.start := by
  induction rounds with
  | ended => exact List.forall_mem_nil _
  | again _ covers _ _ induction =>
      obtain ⟨head, isHead, starts⟩ := covers.starts
      obtain ⟨list, member, inside⟩ := mem_of_mem_heads isHead
      intro window found
      rcases List.mem_append.mp found with here | later
      · rw [(mem_fitting.mp here).1, starts]
        exact behind list member head inside
      · exact induction (dropStart_behind behind) window later

/-- Windows over well-ordered lists are well-ordered, since each round goes on behind the start of
the one before it. -/
theorem Rounds.wellOrdered {lists : List (List Extent)} {windows : List Extent}
    (rounds : Rounds width lists windows)
    (wellOrdered : ∀ list ∈ lists, Extent.WellOrdered list) : Extent.WellOrdered windows := by
  induction rounds with
  | ended => exact ⟨List.forall_mem_nil _, .nil⟩
  | again _ covers forward later induction =>
      have rest := induction (dropStart_wellOrdered wellOrdered)
      have behind := later.behind (dropStart_behind (covers.before_all wellOrdered))
      constructor
      · intro window found
        rcases List.mem_append.mp found with here | there
        · exact (mem_fitting.mp here).1 ▸ forward
        · exact rest.forward window there
      · refine List.pairwise_append.mpr ⟨?_, rest.ascending, ?_⟩
        · unfold fitting
          split
          · exact List.pairwise_singleton _ _
          · exact .nil
        · intro window here other there
          exact (mem_fitting.mp here).1 ▸ behind other there

end Window

end Concordance
