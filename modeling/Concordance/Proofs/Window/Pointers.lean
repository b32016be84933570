import Concordance.Window

/-!
# Pointers into lists

An ordered search need not cut its lists: a pointer into each of them says how much of it is
passed.  The search with pointers counts each access outside a list and each difference below
zero as a fault.  It runs into neither and finds the same windows, over any lists.
-/

namespace Concordance

namespace Window

/-- What must not happen to a search with pointers. -/
inductive Fault where
  /-- A pointer that points to no extent of its list. -/
  | outside
  /-- A start in front of the end from which it is counted. -/
  | below

/-- How far an extent starts behind the end reached. -/
def gap (reached : Nat) (next : Extent) : Except Fault Nat :=
  if next.start < reached then .error .below else .ok (next.start - reached)

/-- Move a pointer on to an extent that does not start before the end reached, if there is one
left. -/
def seekPointer (list : List Extent) (reached pointer : Nat) : Except Fault (Option Nat) :=
  if inside : pointer < list.length then
    if list[pointer].start < reached then
      if pointer + 1 = list.length then .ok none else seekPointer list reached (pointer + 1)
    else .ok (some pointer)
  else .error .outside
termination_by list.length - pointer

/-- Follow the lists behind an extent from where their pointers stand. -/
def tracePointers (width : Nat) :
    Extent → List (List Extent) → List Nat → Except Fault (Chain × List Nat)
  | last, [], pointers => .ok (.complete last, pointers)
  | _, _ :: _, [] => .error .outside
  | last, list :: lists, pointer :: pointers => do
    match ← seekPointer list last.stop pointer with
    | none => pure (.ended, pointer :: pointers)
    | some place =>
      match list[place]? with
      | none => .error .outside
      | some next =>
        if width ≤ (← gap last.stop next) then pure (.broken, place :: pointers)
        else
          let (chain, places) ← tracePointers width next lists pointers
          pure (chain, place :: places)

/-- The windows behind those found so far, from where the pointers stand. -/
def sweepPointers (width : Nat) (lists : List (List Extent)) :
    List Extent → List Nat → Array Extent → Except Fault (Array Extent)
  | [], _, found => .ok found
  | first :: firsts, pointers, found => do
    match ← tracePointers width first lists pointers with
    | (.complete last, places) =>
      sweepPointers width lists firsts places
        (found.push ⟨first.start, last.stop, first.start_lt, last.stop_lt⟩)
    | (.broken, places) => sweepPointers width lists firsts places found
    | (.ended, _) => pure found

/-- The windows in which the lists occur in order, found with pointers. -/
def orderedByPointers (width : Nat) (lists : List (List Extent)) :
    Except Fault (List Extent) :=
  if lists.any List.isEmpty then .ok []
  else
    match lists with
    | [] => .ok []
    | firsts :: others =>
      (sweepPointers width others firsts (others.map fun _ => 0) #[]).map Array.toList

/-! ## What is left of the lists -/

/-- The lists from where their pointers stand. -/
def remaining (lists : List (List Extent)) (pointers : List Nat) : List (List Extent) :=
  List.zipWith List.drop pointers lists

theorem remaining_cons (list : List Extent) (lists : List (List Extent)) (pointer : Nat)
    (pointers : List Nat) :
    remaining (list :: lists) (pointer :: pointers) =
      list.drop pointer :: remaining lists pointers := rfl

/-- Pointers each of which points to an extent of its list. -/
inductive Pointing : List (List Extent) → List Nat → Prop where
  | nil : Pointing [] []
  | cons {list : List Extent} {lists : List (List Extent)} {pointer : Nat} {pointers : List Nat}
      (inside : pointer < list.length) (later : Pointing lists pointers) :
      Pointing (list :: lists) (pointer :: pointers)

/-- At the front of their lists pointers leave all of them. -/
theorem pointing_front {lists : List (List Extent)} (occupied : lists.any List.isEmpty = false) :
    Pointing lists (lists.map fun _ => 0) ∧
      remaining lists (lists.map fun _ => 0) = lists := by
  induction lists with
  | nil => exact ⟨.nil, rfl⟩
  | cons list lists induction =>
      rw [List.any_cons, Bool.or_eq_false_iff] at occupied
      obtain ⟨pointing, whole⟩ := induction occupied.2
      have inside : 0 < list.length :=
        List.length_pos_iff.mpr (List.isEmpty_eq_false_iff.mp occupied.1)
      exact ⟨.cons inside pointing, congrArg (list :: ·) whole⟩

variable {width : Nat}

theorem gap_behind {reached : Nat} {next : Extent} (behind : reached ≤ next.start) :
    gap reached next = .ok (next.start - reached) := if_neg (Nat.not_lt.mpr behind)

/-- A pointer moves on to the first extent left that does not start before the end reached. -/
theorem seekPointer_drop {list : List Extent} {reached pointer : Nat}
    (inside : pointer < list.length) :
    match (list.drop pointer).dropWhile fun extent => extent.start < reached with
    | [] => seekPointer list reached pointer = .ok none
    | next :: later => ∃ place, seekPointer list reached pointer = .ok (some place) ∧
        place < list.length ∧ list.drop place = next :: later ∧ reached ≤ next.start := by
  fun_induction seekPointer list reached pointer with
  | case1 pointer inside passed last =>
      rw [List.drop_eq_getElem_cons inside, List.dropWhile_cons_of_pos (by simpa using passed),
        last, List.drop_length]
      rfl
  | case2 pointer inside passed more induction =>
      rw [List.drop_eq_getElem_cons inside, List.dropWhile_cons_of_pos (by simpa using passed)]
      exact induction (by omega)
  | case3 pointer inside reaches =>
      rw [List.drop_eq_getElem_cons inside, List.dropWhile_cons_of_neg (by simpa using reaches)]
      exact ⟨pointer, rfl, inside, List.drop_eq_getElem_cons inside, Nat.not_lt.mp reaches⟩
  | case4 pointer outside => exact absurd inside outside

/-- Pointers follow a chain without a fault, and unless a list is used up they stand where the
cut lists begin. -/
theorem tracePointers_follow {last : Extent} {lists : List (List Extent)} {pointers : List Nat}
    (pointing : Pointing lists pointers) :
    ∃ places, tracePointers width last lists pointers =
        .ok ((follow width last (remaining lists pointers)).1, places) ∧
      ((follow width last (remaining lists pointers)).1 = .ended ∨ Pointing lists places ∧
        remaining lists places = (follow width last (remaining lists pointers)).2) := by
  induction pointing generalizing last with
  | nil => exact ⟨[], rfl, .inr ⟨.nil, rfl⟩⟩
  | @cons list lists pointer pointers inside later induction =>
      have sought := @seekPointer_drop list last.stop pointer inside
      rw [remaining_cons, tracePointers, follow]
      cases ahead : (list.drop pointer).dropWhile fun extent => extent.start < last.stop with
      | nil =>
          rw [ahead] at sought
          exact ⟨pointer :: pointers, by rw [sought]; rfl, .inl rfl⟩
      | cons next rest =>
          rw [ahead] at sought
          obtain ⟨place, moved, within, left, behind⟩ := sought
          have here : list[place]? = some next := by
            rw [← List.head?_drop, left, List.head?_cons]
          rw [moved]
          simp only [bind, Except.bind, here, gap_behind behind]
          by_cases far : width ≤ next.start - last.stop
          · rw [if_pos far, if_pos far]
            exact ⟨place :: pointers, rfl,
              .inr ⟨.cons within later, by rw [remaining_cons, left]⟩⟩
          · rw [if_neg far, if_neg far]
            obtain ⟨places, traced, kept⟩ := @induction next
            rw [traced]
            refine ⟨place :: places, rfl, kept.imp id ?_⟩
            rintro ⟨pointingLater, whole⟩
            exact ⟨.cons within pointingLater, by rw [remaining_cons, left, whole]⟩

theorem sweepPointers_eq {lists : List (List Extent)} {firsts : List Extent}
    {pointers : List Nat} (found : Array Extent) (pointing : Pointing lists pointers) :
    sweepPointers width lists firsts pointers found =
      .ok (sweepOrdered width firsts (remaining lists pointers) found) := by
  induction firsts generalizing pointers found with
  | nil => rfl
  | cons first firsts induction =>
      obtain ⟨places, traced, kept⟩ := @tracePointers_follow width first _ _ pointing
      rw [sweepPointers, traced, sweepOrdered]
      cases followed : follow width first (remaining lists pointers) with
      | mk chain rest =>
          rw [followed] at kept
          cases chain with
          | ended => rfl
          | broken =>
              obtain ⟨pointingLater, rfl⟩ := kept.resolve_left (fun impossible => nomatch impossible)
              exact induction found pointingLater
          | complete last =>
              obtain ⟨pointingLater, rfl⟩ := kept.resolve_left (fun impossible => nomatch impossible)
              exact induction _ pointingLater

/-- A search with pointers never leaves a list, never takes a greater position from a smaller
one, and finds what the search finds that cuts its lists. -/
theorem orderedByPointers_eq (width : Nat) (lists : List (List Extent)) :
    orderedByPointers width lists = .ok (ordered width lists) := by
  unfold orderedByPointers ordered
  by_cases missing : lists.any List.isEmpty = true
  · rw [if_pos missing, if_pos missing]
  · rw [if_neg missing, if_neg missing]
    cases lists with
    | nil => rfl
    | cons firsts others =>
        rw [Bool.not_eq_true, List.any_cons, Bool.or_eq_false_iff] at missing
        obtain ⟨pointing, whole⟩ := pointing_front missing.2
        dsimp only
        rw [sweepPointers_eq #[] pointing, whole]
        rfl

end Window

end Concordance
