import Mathlib.Data.List.Chain
import Concordance.Proofs.Window.Choice
import Concordance.Proofs.Window.Pointers
import Concordance.Proofs.Window.Widening

/-!
# Starting afresh

An ordered search goes over its lists once: what one chain has passed is gone for the chains
behind it, and a list that is used up ends the search.  Where the ends ascend in all lists but
the last this makes no difference.  The search then finds what is found by searching all lists
from their front for each first extent.  Over any lists each window is the stretch of a chain.
-/

namespace Concordance

namespace Window

variable {width : Nat}

/-- The last extent of the chain behind an extent, with each list searched from its front. -/
def restart (width : Nat) : Extent → List (List Extent) → Option Extent
  | last, [] => some last
  | last, list :: lists =>
    match list.find? fun extent => last.stop ≤ extent.start with
    | none => none
    | some next => if width ≤ next.start - last.stop then none else restart width next lists

/-- The window of the chain behind a first extent. -/
def windowFrom (width : Nat) (lists : List (List Extent)) (first : Extent) : Option Extent :=
  (restart width first lists).map fun last =>
    ⟨first.start, last.stop, first.start_lt, last.stop_lt⟩

/-- The windows that are found by starting afresh for each first extent. -/
def restarted (width : Nat) : List (List Extent) → List Extent
  | [] => []
  | firsts :: others => firsts.filterMap (windowFrom width others)

/-! ## One chain -/

/-- Following a chain through whole lists ends where it does when each is searched from its
front. -/
theorem restart_eq_some_iff {last final : Extent} {lists : List (List Extent)} :
    restart width last lists = some final ↔ (follow width last lists).1 = .complete final := by
  induction lists generalizing last with
  | nil =>
      rw [restart, follow, Option.some.injEq, Chain.complete.injEq]
  | cons list lists induction =>
      have first : (list.find? fun extent => decide (last.stop ≤ extent.start)) =
          (list.dropWhile fun extent => decide (extent.start < last.stop)).head? := by
        rw [List.find?_eq_head?_dropWhile_not]
        simp only [← decide_not, Nat.not_le]
      rw [restart, follow, first]
      cases list.dropWhile fun extent => decide (extent.start < last.stop) with
      | nil => simp
      | cons next rest =>
          dsimp only [List.head?_cons]
          split
          · simp
          · exact induction

theorem windowFrom_complete {first last : Extent} {lists : List (List Extent)}
    (complete : (follow width first lists).1 = .complete last) :
    windowFrom width lists first = some ⟨first.start, last.stop, first.start_lt, last.stop_lt⟩ := by
  rw [windowFrom, restart_eq_some_iff.mpr complete]
  rfl

theorem windowFrom_incomplete {first : Extent} {lists : List (List Extent)}
    (incomplete : ∀ last, (follow width first lists).1 ≠ .complete last) :
    windowFrom width lists first = none := by
  rw [windowFrom, Option.map_eq_none_iff, Option.eq_none_iff_forall_ne_some]
  exact fun last complete => incomplete last (restart_eq_some_iff.mp complete)

/-! ## The whole search -/

/-- A sweep over what earlier chains have left finds what is found in the whole lists, as long as
the first extents still come to the same ends there. -/
theorem sweepOrdered_restarts {firsts : List Extent} {lists wholes : List (List Extent)}
    (found : Array Extent) (stops : lists ≠ [] → Extent.StopsAscend firsts)
    (ascending : Ascending lists)
    (same : ∀ first ∈ firsts, (follow width first lists).1 = (follow width first wholes).1) :
    (sweepOrdered width firsts lists found).toList =
      found.toList ++ firsts.filterMap (windowFrom width wholes) := by
  induction firsts generalizing lists found with
  | nil => simp [sweepOrdered]
  | cons first firsts induction =>
      have sublists := follow_sublists width first lists
      obtain ⟨sameFirst, sameLater⟩ := List.forall_mem_cons.mp same
      have again : ∀ later ∈ firsts, (follow width later (follow width first lists).2).1 =
          (follow width later lists).1 := by
        intro later member
        refine follow_again width width ascending fun some => ?_
        exact (List.pairwise_cons.mp (stops some)).1 later member
      have stopsLater : (follow width first lists).2 ≠ [] → Extent.StopsAscend firsts := by
        intro some
        refine (List.pairwise_cons.mp (stops ?_)).2
        rintro rfl
        exact some rfl
      have step := fun found => induction found stopsLater (ascending.sublists sublists)
        fun later member => (again later member).trans (sameLater later member)
      rw [sweepOrdered, List.filterMap_cons]
      cases followed : follow width first lists with
      | mk chain rest =>
          rw [followed] at sameFirst step again
          cases chain with
          | complete last =>
              rw [windowFrom_complete sameFirst.symm]
              dsimp only
              rw [step]
              simp
          | broken =>
              rw [windowFrom_incomplete (by rw [← sameFirst]; rintro last ⟨⟩)]
              exact step found
          | ended =>
              -- The list that is used up is still missing for every later chain.
              have missing : [] ∈ (follow width first lists).2 :=
                missing_of_ended (by rw [followed])
              rw [followed] at missing
              have nothing : firsts.filterMap (windowFrom width wholes) = [] := by
                refine List.filterMap_eq_nil_iff.mpr fun later member => ?_
                have kept := (again later member).trans (sameLater later member)
                exact windowFrom_incomplete fun last complete =>
                  follow_missing missing (kept.trans complete)
              rw [windowFrom_incomplete (by rw [← sameFirst]; rintro last ⟨⟩)]
              simp [nothing]

theorem restarted_missing {lists : List (List Extent)} (missing : [] ∈ lists) :
    restarted width lists = [] := by
  cases lists with
  | nil => cases missing
  | cons firsts others =>
      rcases List.mem_cons.mp missing with rfl | later
      · rfl
      · exact List.filterMap_eq_nil_iff.mpr fun first _ =>
          windowFrom_incomplete fun _ => follow_missing later

/-- Where the ends ascend in all lists but the last, the search finds what starting afresh
finds. -/
theorem ordered_eq_restarted {lists : List (List Extent)} (ascending : Ascending lists) :
    ordered width lists = restarted width lists := by
  unfold ordered
  by_cases missing : lists.any List.isEmpty = true
  · rw [if_pos missing, restarted_missing (by simpa using missing)]
  · rw [if_neg missing]
    cases lists with
    | nil => rfl
    | cons firsts others =>
        dsimp only
        rw [sweepOrdered_restarts #[] ascending.head ascending.tail fun _ _ => rfl]
        rfl

/-! ## Chains -/

/-- An extent that starts at or behind the end of another one and less than the width behind
it. -/
def Near (width : Nat) (first second : Extent) : Prop :=
  first.stop ≤ second.start ∧ second.start < first.stop + width

/-- A complete chain leads from one extent of each list to a near one of the next. -/
theorem follow_chain {last final : Extent} {lists : List (List Extent)}
    (complete : (follow width last lists).1 = .complete final) :
    ∃ nexts, Choice nexts lists ∧ (last :: nexts).IsChain (Near width) ∧
      (last :: nexts).getLast? = some final := by
  induction lists generalizing last with
  | nil =>
      cases complete
      exact ⟨[], .nil, .singleton _, rfl⟩
  | cons list lists induction =>
      obtain ⟨next, rest, ahead, close, complete⟩ := follow_step complete
      have behind := reached_of_dropWhile ahead
      have member : next ∈ list := (sublist_of_dropWhile ahead).mem List.mem_cons_self
      obtain ⟨nexts, choice, chained, ends⟩ := induction complete
      refine ⟨next :: nexts, .cons member choice, .cons_cons ⟨behind, by omega⟩ chained, ?_⟩
      rw [List.getLast?_cons_cons]
      exact ends

/-- Each window of a sweep is one of those found before or the stretch of a chain. -/
theorem sweepOrdered_chain {firsts : List Extent} {lists : List (List Extent)}
    {found : Array Extent} {window : Extent}
    (member : window ∈ (sweepOrdered width firsts lists found).toList) :
    window ∈ found.toList ∨ ∃ first ∈ firsts, ∃ nexts, Choice nexts lists ∧
      (first :: nexts).IsChain (Near width) ∧ window.start = first.start ∧
      (first :: nexts).getLast?.map Extent.stop = some window.stop := by
  induction firsts generalizing lists found with
  | nil => exact .inl member
  | cons first firsts induction =>
      have sublists := follow_sublists width first lists
      have chained := fun final => @follow_chain width first final lists
      rw [sweepOrdered] at member
      cases followed : follow width first lists with
      | mk chain rest =>
          rw [followed] at member sublists chained
          have later {other : Array Extent}
              (inside : window ∈ (sweepOrdered width firsts rest other).toList) :
              window ∈ other.toList ∨ ∃ first ∈ firsts, ∃ nexts, Choice nexts lists ∧
                (first :: nexts).IsChain (Near width) ∧ window.start = first.start ∧
                (first :: nexts).getLast?.map Extent.stop = some window.stop := by
            rcases induction inside with before | ⟨other, isOther, nexts, choice, shape⟩
            · exact .inl before
            · exact .inr ⟨other, isOther, nexts, choice.wholes sublists, shape⟩
          cases chain with
          | complete final =>
              rcases later member with before | ⟨other, isOther, shape⟩
              · rw [Array.toList_push, List.mem_append, List.mem_singleton] at before
                rcases before with earlier | rfl
                · exact .inl earlier
                · obtain ⟨nexts, choice, near, ends⟩ := chained final rfl
                  refine .inr ⟨first, List.mem_cons_self, nexts, choice, near, rfl, ?_⟩
                  rw [ends]
                  rfl
              · exact .inr ⟨other, List.mem_cons_of_mem _ isOther, shape⟩
          | broken =>
              rcases later member with before | ⟨other, isOther, shape⟩
              · exact .inl before
              · exact .inr ⟨other, List.mem_cons_of_mem _ isOther, shape⟩
          | ended => exact .inl member

theorem ordered_chain {lists : List (List Extent)} {window : Extent}
    (found : window ∈ ordered width lists) :
    ∃ chain, Choice chain lists ∧ chain.IsChain (Near width) ∧
      chain.head?.map Extent.start = some window.start ∧
      chain.getLast?.map Extent.stop = some window.stop := by
  unfold ordered at found
  split at found
  · cases found
  · cases lists with
    | nil => cases found
    | cons firsts others =>
        rcases sweepOrdered_chain found with before | ⟨first, member, nexts, choice, near, starts,
          stops⟩
        · cases before
        · exact ⟨first :: nexts, .cons member choice, near, congrArg some starts.symm, stops⟩

/-- Where the ends ascend, an ordered search in one pass finds what starting afresh for each
first extent finds, in the same order.  Over any lists its pointers stay inside them, it counts
no distance backward, and each window is the stretch of a chain of near extents. -/
theorem ordered_restarts (width : Nat) (lists : List (List Extent)) :
    ((∀ list ∈ lists.dropLast, Extent.StopsAscend list) →
      ordered width lists = restarted width lists) ∧
    orderedByPointers width lists = .ok (ordered width lists) ∧
    ∀ window ∈ ordered width lists, ∃ chain, Choice chain lists ∧
      chain.IsChain (Near width) ∧ chain.head?.map Extent.start = some window.start ∧
      chain.getLast?.map Extent.stop = some window.stop :=
  ⟨ordered_eq_restarted, orderedByPointers_eq width lists, fun _ => ordered_chain⟩

/-- The first chain ends in a long extent, the second one is given up, and the third one goes
past what both have used. -/
theorem ordered_restarts_broken :
    let lists : List (List Extent) :=
      [[.ofNats 0 1, .ofNats 2 3, .ofNats 8 9], [.ofNats 1 2, .ofNats 9 9],
        [.ofNats 2 100, .ofNats 9 12]]
    (∀ list ∈ lists.dropLast, Extent.StopsAscend list) ∧
      ordered 2 lists = restarted 2 lists ∧
      restarted 2 lists = [.ofNats 0 100, .ofNats 8 12] := by
  intro lists
  have ascending : ∀ list ∈ lists.dropLast, Extent.StopsAscend list := by decide
  exact ⟨ascending, (ordered_restarts 2 lists).1 ascending, by decide⟩

end Window

end Concordance
