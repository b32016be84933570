import Concordance.Proofs.Block.Parsing
import Concordance.Proofs.Block.Scanning

/-!
# Where a block ends

A block says at its head how many bytes it has, and the head is read without a look at what
stands behind it.  Bytes that can be parsed are therefore cut off nowhere: neither what is left
of them when some are missing at the end nor they with more bytes behind them can be parsed.
-/

namespace Concordance

/-- A step that reads the same whatever bytes are put behind those that it reads from. -/
def Step.Steady {α : Type} (step : Step (List UInt8) α) : Prop :=
  ∀ bytes back value rest, step bytes = .ok value rest →
    step (bytes ++ back) = .ok value (rest ++ back)

namespace Step

variable {α β : Type}

theorem steady_pure (value : α) : Steady (pure value : Step (List UInt8) α) := by
  intro bytes back found rest run
  cases run
  rfl

theorem steady_ofExcept (result : Except Error α) :
    Steady (ofExcept result : Step (List UInt8) α) := by
  intro bytes back value rest run
  obtain ⟨known, rfl⟩ := ofExcept_eq_ok run
  exact ofExcept_run known _

theorem Steady.bind {first : Step (List UInt8) α} {next : α → Step (List UInt8) β}
    (begun : first.Steady) (continued : ∀ value, (next value).Steady) :
    (first >>= next).Steady := by
  intro bytes back result rest run
  obtain ⟨value, middle, before, later⟩ := bind_eq_ok run
  rw [bind_ok next (begun bytes back value middle before)]
  exact continued value middle back result rest later

end Step

namespace Varint

/-- Each group says whether it is the last one, so what stands behind it is not looked at. -/
theorem takeGroups_append {groups number : Nat} {bytes rest : List UInt8}
    (taken : takeGroups groups bytes = .ok (number, rest)) (back : List UInt8) :
    takeGroups groups (bytes ++ back) = .ok (number, rest ++ back) := by
  induction groups generalizing bytes number with
  | zero => cases taken
  | succ groups induction =>
      cases bytes with
      | nil => cases taken
      | cons byte bytes =>
          rw [takeGroups] at taken
          rw [List.cons_append, takeGroups]
          by_cases wide : groups = 0 ∧ 1 < byte.toNat % 128
          · rw [if_pos wide] at taken
            cases taken
          rw [if_neg wide] at taken ⊢
          by_cases last : byte.toNat < 128
          · rw [if_pos last] at taken ⊢
            cases taken
            rfl
          rw [if_neg last] at taken ⊢
          cases inner : takeGroups groups bytes with
          | error cause =>
              rw [inner] at taken
              cases taken
          | ok pair =>
              obtain ⟨high, behind⟩ := pair
              rw [inner] at taken
              cases taken
              rw [induction inner]

theorem read64_steady : read64.Steady := by
  intro bytes back number rest run
  unfold read64 reading take64 at run ⊢
  cases taken : takeGroups maxGroups bytes with
  | error cause =>
      rw [taken] at run
      cases run
  | ok pair =>
      rw [taken] at run
      cases run
      rw [takeGroups_append taken back]

end Varint

namespace Block

namespace Layout

variable {bytes front back : List UInt8} {head : Head} {body : List UInt8} {layout : Layout}

theorem readHead_steady : readHead.Steady := by
  unfold readHead
  refine Varint.read64_steady.bind fun docs => ?_
  refine Varint.read64_steady.bind fun total => ?_
  refine Varint.read64_steady.bind fun largest => ?_
  refine Varint.read64_steady.bind fun skipInterval => ?_
  refine Varint.read64_steady.bind fun skipCount => ?_
  refine (Step.steady_ofExcept _).bind fun _ => ?_
  refine Varint.read64_steady.bind fun skipsLength => ?_
  refine Varint.read64_steady.bind fun docsLength => ?_
  refine Varint.read64_steady.bind fun countsLength => ?_
  refine Varint.read64_steady.bind fun extentsLength => ?_
  exact Step.steady_pure _

/-- The head of bytes that can be parsed covers what stands behind it. -/
theorem covers_of_parse (parsed : parse bytes = .ok layout) :
    ∃ head body, readHead bytes = .ok head body ∧ head.Covers body := by
  obtain ⟨head, front, table, announces, opened, _⟩ := (proper_of_parse parsed).adjacent
  refine ⟨head, _, opened, ?_⟩
  simp only [Head.Covers, List.length_append, announces.table, announces.docs, announces.counts,
    announces.extents]
  omega

/-- Bytes are corrupt if their head does not cover what stands behind it: they fail before any sum
that may leave its word. -/
theorem parse_uncovered (opened : readHead bytes = .ok head body) (uncovered : ¬head.Covers body) :
    ∃ cause, parse bytes = .error cause ∧ cause.kind = .corruptIndex := by
  rcases parse_cases bytes with ⟨layout, parsed, _⟩ | ⟨cause, refused, corrupt | overflows⟩
  · obtain ⟨found, rest, same, covers⟩ := covers_of_parse parsed
    cases opened.symm.trans same
    exact absurd covers uncovered
  · exact ⟨cause, refused, corrupt⟩
  · cases overflows with
    | table same covers _ =>
        cases opened.symm.trans same
        exact absurd covers uncovered
    | figure same covers _ _ _ _ =>
        cases opened.symm.trans same
        exact absurd covers uncovered

theorem Head.Covers.not_append (covers : head.Covers body) (more : back ≠ []) :
    ¬head.Covers (body ++ back) := by
  have longer := List.length_pos_iff.mpr more
  simp only [Covers, List.length_append] at covers ⊢
  omega

/-- Bytes that can be parsed are corrupt with more bytes behind them. -/
theorem parse_longer (parsed : parse front = .ok layout) (more : back ≠ []) :
    ∃ cause, parse (front ++ back) = .error cause ∧ cause.kind = .corruptIndex := by
  obtain ⟨head, body, opened, covers⟩ := covers_of_parse parsed
  exact parse_uncovered (readHead_steady front back head body opened) (covers.not_append more)

/-- Bytes that can be parsed are corrupt when some are missing at the end. -/
theorem parse_shorter (parsed : parse (front ++ back) = .ok layout) (more : back ≠ []) :
    ∃ cause, parse front = .error cause ∧ cause.kind = .corruptIndex := by
  cases run : readHead front with
  | error cause rest =>
      refine ⟨cause, ?_, (readHead_ends front).of_error run⟩
      unfold parse
      rw [run]
  | ok head body =>
      apply parse_uncovered run
      intro covers
      obtain ⟨found, whole, opened, coversWhole⟩ := covers_of_parse parsed
      cases (readHead_steady front back head body run).symm.trans opened
      exact covers.not_append more coversWhole

/-- Of bytes of which one begins the other, at most one can be parsed. -/
theorem parse_beside {block other : List UInt8} (parsed : parse block = .ok layout)
    (comparable : other <+: block ∨ block <+: other) (differs : other ≠ block) :
    ∃ cause, parse other = .error cause ∧ cause.kind = .corruptIndex := by
  rcases comparable with ⟨back, rfl⟩ | ⟨back, rfl⟩
  · exact parse_shorter parsed fun blank => differs (by rw [blank, List.append_nil])
  · exact parse_longer parsed fun blank => differs (by rw [blank, List.append_nil])

theorem parse_encoded {interval : Nat} {postings : List Posting}
    (encoded : Encoded interval postings bytes) : ∃ layout, parse bytes = .ok layout := by
  obtain ⟨rfl, stored⟩ := encoded.image
  exact ⟨_, stored.parses⟩

end Layout

end Block

end Concordance
