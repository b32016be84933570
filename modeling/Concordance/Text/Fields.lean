/-!
# Fields

A text is cut at every occurrence of a separator.  Cutting always gives at
least one field, and joining the fields with the separator gives the text back.
-/

namespace Concordance

/-- The pieces of a text between the occurrences of a separator. -/
def fields (separator : Char) : List Char → List (List Char)
  | [] => [[]]
  | char :: text =>
    if char = separator then [] :: fields separator text
    else
      match fields separator text with
      | [] => [[char]]
      | field :: later => (char :: field) :: later

theorem fields_ne_nil (separator : Char) (text : List Char) :
    fields separator text ≠ [] := by
  cases text with
  | nil => simp [fields]
  | cons char text =>
      unfold fields
      split
      · simp
      · split <;> simp

theorem intercalate_fields (separator : Char) (text : List Char) :
    [separator].intercalate (fields separator text) = text := by
  induction text with
  | nil => rfl
  | cons char text induction =>
      have nonempty := fields_ne_nil separator text
      unfold fields
      split
      · rename_i same
        subst same
        cases split : fields char text with
        | nil => exact absurd split nonempty
        | cons field later =>
            rw [split] at induction
            simpa [List.intercalate] using induction
      · cases split : fields separator text with
        | nil => exact absurd split nonempty
        | cons field later =>
            rw [split] at induction
            cases later with
            | nil => simpa [List.intercalate] using induction
            | cons next others => simpa [List.intercalate] using induction

end Concordance
