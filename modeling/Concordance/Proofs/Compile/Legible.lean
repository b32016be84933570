import Concordance.Proofs.Compile.Building
import Concordance.Proofs.Decimal

/-!
# Texts that tell queries apart

The text of a node does not quote the texts that it is made of, so a colon, an equals sign or
a parenthesis in one of them can make two different queries look the same.  So can a
floating-point parameter, which looks like a whole number.  Queries without these are told
apart by their texts: equal texts have equal meanings.
-/

namespace Concordance

/-! ## Words -/

/-- The characters that end a word in the text of a node. -/
def IsMark (char : Char) : Prop := char = ':' ∨ char = '=' ∨ char = '('

instance (char : Char) : Decidable (IsMark char) := inferInstanceAs (Decidable (_ ∨ _))

/-- A text without marks. -/
def Plain (text : String) : Prop := ∀ char ∈ text.toList, ¬IsMark char

instance (text : String) : Decidable (Plain text) :=
  inferInstanceAs (Decidable (∀ char ∈ text.toList, ¬IsMark char))

theorem word_unique {word other rest others : List Char} {mark otherMark : Char}
    (plain : ∀ char ∈ word, ¬IsMark char) (plainOther : ∀ char ∈ other, ¬IsMark char)
    (isMark : IsMark mark) (isOther : IsMark otherMark)
    (same : word ++ mark :: rest = other ++ otherMark :: others) :
    word = other ∧ mark = otherMark ∧ rest = others := by
  induction word generalizing other with
  | nil =>
      cases other with
      | nil => simpa using same
      | cons char other =>
          obtain ⟨rfl, _⟩ := List.cons.inj same
          exact absurd isMark (plainOther mark List.mem_cons_self)
  | cons char word induction =>
      obtain ⟨here, later⟩ := List.forall_mem_cons.mp plain
      cases other with
      | nil =>
          obtain ⟨rfl, _⟩ := List.cons.inj same
          exact absurd isOther here
      | cons char' other =>
          obtain ⟨rfl, behind⟩ := List.cons.inj same
          obtain ⟨rfl, rest⟩ := induction later (List.forall_mem_cons.mp plainOther).2 behind
          exact ⟨rfl, rest⟩

/-! ## Parameters -/

/-- Digits bear no sign and no marks. -/
theorem Decimal.digit_plain {value : Nat} {char : Char} (member : char ∈ Nat.toDigits 10 value) :
    char ≠ '-' ∧ char ≠ '+' ∧ ¬IsMark char := by
  have different : ∀ other : Char, other.isDigit = false → char ≠ other := by
    rintro other none rfl
    exact not_mem_toDigits char none value member
  refine ⟨different '-' rfl, different '+' rfl, ?_⟩
  rintro (same | same | same)
  · exact different ':' rfl same
  · exact different '=' rfl same
  · exact different '(' rfl same

theorem Decimal.takeSign_toDigits (value : Nat) :
    takeSign (Nat.toDigits 10 value) = (false, Nat.toDigits 10 value) := by
  have plain := fun char => @digit_plain value char
  cases digits : Nat.toDigits 10 value with
  | nil => rfl
  | cons char later =>
      rw [digits] at plain
      obtain ⟨noMinus, noPlus, _⟩ := plain char List.mem_cons_self
      unfold takeSign
      split
      · rename_i same
        exact absurd (List.cons.inj same).1 noMinus
      · rename_i same
        exact absurd (List.cons.inj same).1 noPlus
      · rfl

/-- What a whole number of 64 bits reads as. -/
theorem Decimal.signed64?_digits {value : Int}
    (inRange : -(signBit : Int) ≤ value ∧ value < signBit) :
    signed64? (if value < 0 then '-' :: Nat.toDigits 10 value.natAbs
      else Nat.toDigits 10 value.natAbs) = some value := by
  by_cases negative : value < 0
  · have back : -(value.natAbs : Int) = value := by
      rw [Int.ofNat_natAbs_of_nonpos (Int.le_of_lt negative), Int.neg_neg]
    rw [if_pos negative, signed64?]
    simp only [takeSign, natural?_toDigits, Option.bind_eq_bind, Option.bind_some, if_true]
    rw [back]
    exact if_pos inRange
  · have back : (value.natAbs : Int) = value := Int.natAbs_of_nonneg (Int.not_lt.mp negative)
    rw [if_neg negative, signed64?, takeSign_toDigits]
    dsimp only
    rw [natural?_toDigits, Option.bind_eq_bind, Option.bind_some, if_neg Bool.false_ne_true, back]
    exact if_pos inRange

namespace Param

/-- A parameter whose text says what it is: a text without marks, a truth value or a whole
number of 64 bits. -/
def Spelled : Param → Prop
  | bool _ => True
  | long value => -(Decimal.signBit : Int) ≤ value ∧ value < Decimal.signBit
  | double _ => False
  | string value => Plain value

instance : DecidablePred Spelled
  | bool _ => .isTrue trivial
  | long value => inferInstanceAs (Decidable (_ ≤ value ∧ value < _))
  | double _ => .isFalse id
  | string value => inferInstanceAs (Decidable (Plain value))

theorem text_long_toList (value : Int) : (long value).text.toList =
    if value < 0 then '-' :: Nat.toDigits 10 value.natAbs else Nat.toDigits 10 value.natAbs := by
  by_cases negative : value < 0
  · simp [text, negative, Nat.repr]
  · simp [text, negative, Nat.repr]

theorem Spelled.plain {param : Param} (spelled : param.Spelled) : Plain param.text := by
  cases param with
  | bool value => cases value <;> simp [Plain, text, IsMark]
  | long value =>
      intro char member
      rw [text_long_toList] at member
      by_cases negative : value < 0
      · rw [if_pos negative] at member
        rcases List.mem_cons.mp member with rfl | digit
        · decide
        · exact (Decimal.digit_plain digit).2.2
      · rw [if_neg negative] at member
        exact (Decimal.digit_plain member).2.2
  | double value => cases spelled
  | string value => exact spelled

/-- A parameter reads as the whole number that its text spells. -/
theorem Spelled.asLong?_eq {param : Param} (spelled : param.Spelled) :
    param.asLong? = Decimal.signed64? param.text.toList := by
  cases param with
  | bool value => cases value <;> decide
  | long value =>
      rw [text_long_toList, Decimal.signed64?_digits spelled]
      rfl
  | double value => cases spelled
  | string value => rfl

end Param

namespace Node

/-! ## Fields -/

/-- The name under which a parameter stands in a text. -/
def fieldName (name : String) : Option String := if name = defaultName then none else some name

/-- The parameters as a text shows them: the default one first and without its name. -/
def fields (parameters : TextMap Param) : List (Option String × String) :=
  (parameters.get? defaultName).toList.map (fun value => (none, value.text)) ++
    (parameters.entries.filter fun entry => entry.1 != defaultName).map
      fun entry => (some entry.1, entry.2.text)

/-- A field behind its colon. -/
def fieldText : Option String × String → List Char
  | (none, value) => ':' :: value.toList
  | (some name, value) => ':' :: (name.toList ++ '=' :: value.toList)

theorem headText_toList (operator : String) (parameters : TextMap Param) :
    (headText operator parameters).toList =
      '#' :: (operator.toList ++ (fields parameters).flatMap fieldText) := by
  have named : ∀ entries : List (String × Param),
      (String.join (entries.map fun entry => ":" ++ entry.1 ++ "=" ++ entry.2.text)).toList =
        (entries.map fun entry => (some entry.1, entry.2.text)).flatMap fieldText := by
    intro entries
    induction entries with
    | nil => rfl
    | cons entry entries induction => simp [fieldText, induction]
  rw [headText]
  cases held : parameters.get? defaultName with
  | none => simp [fields, held, named]
  | some value => simp [fields, held, named, fieldText]

theorem lookup_named (name : String) (different : name ≠ defaultName)
    (entries : List (String × Param)) :
    ((entries.filter fun entry => entry.1 != defaultName).map
        fun entry => (some entry.1, entry.2.text)).lookup (some name) =
      (entries.lookup name).map Param.text := by
  induction entries with
  | nil => rfl
  | cons entry entries induction =>
      obtain ⟨other, value⟩ := entry
      rw [lookup_entry]
      by_cases isDefault : other = defaultName
      · subst isDefault
        rw [List.filter_cons_of_neg (by simp), if_neg different]
        exact induction
      · rw [List.filter_cons_of_pos (by simpa using isDefault), List.map_cons, List.lookup_cons]
        by_cases same : name = other
        · simp [same]
        · have unequal : (some name == some other) = false := by simpa using same
          rw [if_neg same]
          simp only [unequal]
          exact induction

/-- The fields of a text give the texts of all parameters. -/
theorem lookup_fields (parameters : TextMap Param) (name : String) :
    (fields parameters).lookup (fieldName name) = (parameters.get? name).map Param.text := by
  by_cases isDefault : name = defaultName
  · subst isDefault
    have unnamed : ∀ entries : List (String × Param),
        (entries.map fun entry => (some entry.1, entry.2.text)).lookup none = none := by
      intro entries
      induction entries with
      | nil => rfl
      | cons entry entries induction => exact induction
    rw [fieldName, if_pos rfl, fields]
    cases parameters.get? defaultName with
    | none => exact unnamed _
    | some value => rfl
  · rw [fieldName, if_neg isDefault, fields, List.lookup_append, lookup_named name isDefault]
    cases parameters.get? defaultName <;> rfl

/-- Fields whose parts are plain. -/
def PlainField (field : Option String × String) : Prop :=
  (∀ name, field.1 = some name → Plain name) ∧ Plain field.2

theorem fields_begin (fields : List (Option String × String)) (rest : List Char) :
    ∃ mark later, (IsMark mark ∧ mark ≠ '=') ∧
      fields.flatMap fieldText ++ '(' :: rest = mark :: later := by
  cases fields with
  | nil => exact ⟨'(', rest, by decide, rfl⟩
  | cons field fields =>
      obtain ⟨name, value⟩ := field
      cases name with
      | none => exact ⟨':', _, by decide, rfl⟩
      | some name => exact ⟨':', _, by decide, rfl⟩

theorem value_unique {value other : String} {fields others : List (Option String × String)}
    {rest behind : List Char} (plain : Plain value) (plainOther : Plain other)
    (same : value.toList ++ (fields.flatMap fieldText ++ '(' :: rest) =
      other.toList ++ (others.flatMap fieldText ++ '(' :: behind)) :
    value = other ∧
      fields.flatMap fieldText ++ '(' :: rest = others.flatMap fieldText ++ '(' :: behind := by
  obtain ⟨mark, later, isMark, begins⟩ := fields_begin fields rest
  obtain ⟨otherMark, otherLater, isOther, otherBegins⟩ := fields_begin others behind
  rw [begins, otherBegins] at same ⊢
  obtain ⟨word, rfl, rfl⟩ := word_unique plain plainOther isMark.1 isOther.1 same
  exact ⟨String.ext_iff.mpr word, rfl⟩

/-- A value without a name is not taken for one with a name: the equals sign tells them
apart. -/
theorem field_unique {field other : Option String × String}
    {fields others : List (Option String × String)} {rest behind : List Char}
    (plain : PlainField field) (plainOther : PlainField other)
    (same : fieldText field ++ (fields.flatMap fieldText ++ '(' :: rest) =
      fieldText other ++ (others.flatMap fieldText ++ '(' :: behind)) :
    field = other ∧
      fields.flatMap fieldText ++ '(' :: rest = others.flatMap fieldText ++ '(' :: behind := by
  obtain ⟨name, value⟩ := field
  obtain ⟨otherName, otherValue⟩ := other
  obtain ⟨mark, later, isMark, begins⟩ := fields_begin fields rest
  obtain ⟨otherMark, otherLater, isOther, otherBegins⟩ := fields_begin others behind
  have equals : IsMark '=' := .inr (.inl rfl)
  cases name with
  | none =>
      cases otherName with
      | none =>
          obtain ⟨rfl, tail⟩ := value_unique plain.2 plainOther.2 (List.cons.inj same).2
          exact ⟨rfl, tail⟩
      | some otherName =>
          simp only [fieldText, List.cons_append, List.append_assoc, begins] at same
          obtain ⟨_, impossible, _⟩ := word_unique plain.2 (plainOther.1 otherName rfl) isMark.1
            equals (List.cons.inj same).2
          exact absurd impossible isMark.2
  | some name =>
      cases otherName with
      | none =>
          simp only [fieldText, List.cons_append, List.append_assoc, otherBegins] at same
          obtain ⟨_, impossible, _⟩ := word_unique (plain.1 name rfl) plainOther.2 equals
            isOther.1 (List.cons.inj same).2
          exact absurd impossible.symm isOther.2
      | some otherName =>
          simp only [fieldText, List.cons_append, List.append_assoc] at same
          obtain ⟨word, _, values⟩ := word_unique (plain.1 name rfl) (plainOther.1 otherName rfl)
            equals equals (List.cons.inj same).2
          obtain ⟨rfl, tail⟩ := value_unique plain.2 plainOther.2 values
          rw [String.ext_iff.mpr word]
          exact ⟨rfl, tail⟩

theorem fields_unique {fields others : List (Option String × String)} {rest behind : List Char}
    (plain : ∀ field ∈ fields, PlainField field) (plainOther : ∀ field ∈ others, PlainField field)
    (same : fields.flatMap fieldText ++ '(' :: rest = others.flatMap fieldText ++ '(' :: behind) :
    fields = others ∧ rest = behind := by
  induction fields generalizing others with
  | nil =>
      cases others with
      | nil => exact ⟨rfl, (List.cons.inj same).2⟩
      | cons other others =>
          obtain ⟨name, value⟩ := other
          cases name <;> simp [fieldText] at same
  | cons field fields induction =>
      obtain ⟨here, later⟩ := List.forall_mem_cons.mp plain
      cases others with
      | nil =>
          obtain ⟨name, value⟩ := field
          cases name <;> simp [fieldText] at same
      | cons other others =>
          obtain ⟨otherHere, otherLater⟩ := List.forall_mem_cons.mp plainOther
          rw [List.flatMap_cons, List.flatMap_cons, List.append_assoc, List.append_assoc] at same
          obtain ⟨rfl, tail⟩ := field_unique here otherHere same
          obtain ⟨rfl, rest⟩ := induction later otherLater tail
          exact ⟨rfl, rest⟩

/-! ## Trees -/

/-- A tree without marks in its texts and without floating-point parameters. -/
inductive Legible : Node → Prop where
  | intro (node : Node) (operator : Plain node.operator)
      (parameters : ∀ entry ∈ node.parameters.entries, Plain entry.1 ∧ entry.2.Spelled)
      (children : ∀ child ∈ node.children, Legible child) : Legible node

theorem Legible.inside {node : Node} (legible : node.Legible) :
    ∀ child ∈ node.children, child.Legible := by
  cases legible
  assumption

theorem legible_source {operator key : String} (plainOperator : Plain operator)
    (plain : Plain key) :
    Legible ⟨operator, TextMap.empty.insert defaultName (.string key), []⟩ := by
  have name : Plain defaultName := by simp [Plain, IsMark, defaultName]
  refine .intro _ plainOperator ?_ (fun _ impossible => nomatch impossible)
  intro entry member
  cases List.mem_singleton.mp member
  exact ⟨name, plain⟩

theorem legible_combination {operator : String} {children : List Node} (plain : Plain operator)
    (legible : ∀ child ∈ children, child.Legible) :
    Legible ⟨operator, TextMap.empty, children⟩ :=
  .intro _ plain (fun _ impossible => nomatch impossible) legible

theorem plain_fields {parameters : TextMap Param}
    (spelled : ∀ entry ∈ parameters.entries, Plain entry.1 ∧ entry.2.Spelled) :
    ∀ field ∈ fields parameters, PlainField field := by
  intro field member
  rcases List.mem_append.mp member with unnamed | named
  · obtain ⟨value, held, rfl⟩ := List.mem_map.mp unnamed
    obtain ⟨_, _, split, _⟩ := List.lookup_eq_some_iff.mp (Option.mem_toList.mp held)
    have inside : (defaultName, value) ∈ parameters.entries := by simp [split]
    exact ⟨fun _ impossible => (nomatch impossible), (spelled _ inside).2.plain⟩
  · obtain ⟨entry, isNamed, rfl⟩ := List.mem_map.mp named
    obtain ⟨name, value⟩ := spelled entry (List.mem_filter.mp isNamed).1
    exact ⟨fun _ same => Option.some.inj same ▸ name, value.plain⟩

theorem getString?_eq (node : Node) (name : String) :
    node.getString? name = (fields node.parameters).lookup (fieldName name) :=
  (lookup_fields node.parameters name).symm

theorem Legible.getLong?_eq {node : Node} (legible : node.Legible) (name : String) :
    node.getLong? name = (node.getString? name).bind fun text => Decimal.signed64? text.toList := by
  rw [getLong?, getString?, get?]
  cases held : node.parameters.get? name with
  | none => rfl
  | some value =>
      obtain ⟨_, _, split, _⟩ := List.lookup_eq_some_iff.mp held
      cases legible with
      | intro _ _ parameters _ =>
          exact (parameters (name, value) (by simp [split])).2.asLong?_eq

/-- What follows the opening parenthesis of a text. -/
def closing : List Node → List Char
  | [] => [')']
  | child :: children => (textList (child :: children)).toList ++ [' ', ')']

theorem text_toList (node : Node) : node.text.toList =
    '#' :: (node.operator.toList ++ ((fields node.parameters).flatMap fieldText ++
      '(' :: closing node.children)) := by
  obtain ⟨operator, parameters, children⟩ := node
  cases children with
  | nil => simp [text, headText_toList, closing]
  | cons child children => simp [text, headText_toList, closing]

theorem textList_cons_toList (child : Node) (children : List Node) :
    (textList (child :: children)).toList =
      ' ' :: (child.text.toList ++ (textList children).toList) := by
  simp [textList]

/-- Trees that are read alike: with one operator, with parameters that read the same and with
children that are alike in turn. -/
inductive Alike : Node → Node → Prop where
  | intro {first second : Node} (operator : first.operator = second.operator)
      (texts : ∀ name, first.getString? name = second.getString? name)
      (longs : ∀ name, first.getLong? name = second.getLong? name)
      (length : first.children.length = second.children.length)
      (children : ∀ pair ∈ first.children.zip second.children, Alike pair.1 pair.2) :
      Alike first second

mutual

/-- Legible trees are read off their texts, whatever stands behind them. -/
theorem alike_of_text :
    (first second : Node) → first.Legible → second.Legible → {rest behind : List Char} →
    first.text.toList ++ rest = second.text.toList ++ behind →
    first.Alike second ∧ rest = behind
  | ⟨operator, parameters, children⟩, ⟨otherOperator, otherParameters, otherChildren⟩, legible,
      otherLegible, rest, behind, same => by
    have longs := legible.getLong?_eq
    have otherLongs := otherLegible.getLong?_eq
    obtain ⟨_, plain, spelled, inside⟩ := legible
    obtain ⟨_, otherPlain, otherSpelled, otherInside⟩ := otherLegible
    simp only [text_toList, List.cons_append, List.append_assoc, List.cons.injEq,
      true_and] at same
    obtain ⟨rfl, heads⟩ := value_unique plain otherPlain same
    obtain ⟨sameFields, tails⟩ :=
      fields_unique (plain_fields spelled) (plain_fields otherSpelled) heads
    have texts : ∀ name, getString? ⟨operator, parameters, children⟩ name =
        getString? ⟨operator, otherParameters, otherChildren⟩ name := by
      intro name
      rw [getString?_eq, getString?_eq]
      exact congrArg _ sameFields
    obtain ⟨alike, rfl⟩ : List.Forall₂ Alike children otherChildren ∧ rest = behind := by
      cases children with
      | nil =>
          cases otherChildren with
          | nil => exact ⟨.nil, by simpa [closing] using tails⟩
          | cons child others => simp [closing, textList_cons_toList] at tails
      | cons child later =>
          cases otherChildren with
          | nil => simp [closing, textList_cons_toList] at tails
          | cons other others =>
              simp only [closing, List.append_assoc, List.cons_append, List.nil_append] at tails
              exact alike_of_texts (child :: later) (other :: others) inside otherInside tails
    obtain ⟨length, pairs⟩ := List.forall₂_iff_zip.mp alike
    refine ⟨.intro rfl texts ?_ length fun pair member => pairs member, rfl⟩
    intro name
    rw [longs, otherLongs, texts]

theorem alike_of_texts :
    (firsts seconds : List Node) → (∀ first ∈ firsts, first.Legible) →
    (∀ second ∈ seconds, second.Legible) → {rest behind : List Char} →
    (textList firsts).toList ++ ' ' :: ')' :: rest =
      (textList seconds).toList ++ ' ' :: ')' :: behind →
    List.Forall₂ Alike firsts seconds ∧ rest = behind
  | [], [], _, _, rest, behind, same => ⟨.nil, by simpa [textList] using same⟩
  | [], second :: seconds, _, _, rest, behind, same => by
    simp [textList, text_toList] at same
  | first :: firsts, [], _, _, rest, behind, same => by
    simp [textList, text_toList] at same
  | first :: firsts, second :: seconds, legible, otherLegible, rest, behind, same => by
    obtain ⟨here, later⟩ := List.forall_mem_cons.mp legible
    obtain ⟨otherHere, otherLater⟩ := List.forall_mem_cons.mp otherLegible
    simp only [textList_cons_toList, List.cons_append, List.append_assoc, List.cons.injEq,
      true_and] at same
    obtain ⟨alike, tails⟩ := alike_of_text first second here otherHere same
    obtain ⟨others, rest⟩ := alike_of_texts firsts seconds later otherLater tails
    exact ⟨.cons alike others, rest⟩

end

/-- Legible trees with one text are alike. -/
theorem Legible.alike {first second : Node} (legible : first.Legible)
    (otherLegible : second.Legible) (same : first.text = second.text) : first.Alike second :=
  (@alike_of_text first second legible otherLegible [] [] (by rw [same])).1

end Node

end Concordance
