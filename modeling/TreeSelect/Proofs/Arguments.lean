import TreeSelect.Proofs.Numerals

/-!
Arguments and their canonical text. `Argument.Shaped` says which arguments classification
gives; each of them is classified from its own text. Strings are left out: they are told
apart by their quotes before anything is classified.
-/

namespace TreeSelect

namespace Sign

theorem nat_abs_apply (sign : Sign) (magnitude : UInt32) :
    (sign.apply magnitude).natAbs = magnitude.toNat := by
  cases sign <;> simp [apply]

end Sign

namespace Dimension

theorem normal_normal (aSign bSign : Sign) (a b : UInt32) :
    normal (normal aSign a bSign b).aSign a (normal aSign a bSign b).bSign b =
      normal aSign a bSign b := by
  simp only [normal]
  split <;> split <;> rfl

/-- Neither magnitude is a zero with a minus sign. -/
def Normal (d : Dimension) : Prop := d = normal d.aSign d.a d.bSign d.b

/-- The spelling that a dimension is printed with. -/
def numeral (d : Dimension) : Numeral :=
  .multiple (if d.aSign = .minus then some .minus else none) (.shown 1 d.a.toNat) 'n' (.inl rfl)
    (if d.b = 0 then none else some d.bSign) (.shown 0 d.b.toNat)

theorem text_numeral (d : Dimension) : d.numeral.text = d.text.toList := by
  have a : (Digits.shown 1 d.a.toNat).text = _ := Digits.text_shown 1 d.a
  have b : (Digits.shown 0 d.b.toNat).text = _ := Digits.text_shown 0 d.b
  simp only [numeral, Numeral.text, text, String.toList_append, a, b]
  by_cases zero : d.b = 0
  · cases d.aSign <;> simp [zero, Sign.written]
  · cases d.aSign <;> cases d.bSign <;> simp [zero, Sign.written]

theorem numeral_in_range (d : Dimension) : d.numeral.InRange :=
  ⟨Digits.shown_in_range 1 d.a, Digits.shown_in_range 0 d.b⟩

theorem argument_numeral {d : Dimension} (normal : d.Normal) :
    d.numeral.argument = .dimension d := by
  have aSign : (if d.aSign = .minus then some Sign.minus else none).getD .plus = d.aSign := by
    cases d.aSign <;> rfl
  have same : d.numeral.argument = .dimension (.normal d.aSign d.a d.bSign d.b) := by
    simp only [numeral, Numeral.argument, Digits.value_or_shown, UInt32.ofNat_toNat, aSign,
      Dimension.normal]
    by_cases zero : d.b = 0 <;> simp [zero]
  rw [same, ← normal]

theorem read_normal {text : List Char} {d : Dimension} (found : read? text = some d) :
    d.Normal := by
  unfold read? at found
  simp only at found
  split at found
  · cases found
  · split at found
    · cases found
      exact (normal_normal _ _ _ _).symm
    · cases found

end Dimension

namespace Numeral

/-- The spelling that an integer is printed with. -/
def ofInt (value : Int) : Numeral :=
  .whole (if value < 0 then some .minus else none) (.decimal value.natAbs)
    (Digits.decimal_filled _)

theorem text_of_int (value : Int) : (ofInt value).text = value.repr.toList := by
  have printed : value.repr.toList =
      (if value < 0 then ['-'] else []) ++ Nat.toDigits 10 value.natAbs := by
    cases value with
    | ofNat value => simp [Int.repr, Nat.toList_repr]
    | negSucc value => simp [Int.repr, Nat.toList_repr, Int.negSucc_lt_zero]
  rw [printed, ofInt, text, Digits.decimal]
  split <;> rfl

theorem argument_of_int (value : Int) : (ofInt value).argument = .integer value := by
  rw [ofInt, argument, Digits.value_decimal]
  congr 1
  by_cases negative : value < 0
  · simp only [negative, if_true, Sign.signed]
    omega
  · simp only [negative, if_false, Sign.signed, reduceCtorEq]
    omega

end Numeral

/-- Between quotes of one kind or the other the value can be written. -/
def Quotable (value : String) : Prop := ¬ ('"' ∈ value.toList ∧ '\'' ∈ value.toList)

namespace Argument

def Shaped : Argument → Prop
  | .dimension d => d.Normal
  | .integer value => value.natAbs < UInt32.size
  | .keyword _ => True
  | .string value => Quotable value
  | .ident name => classify name = some (.ident name)

/-! Text without white space is classified as it stands. -/

def Solid (text : List Char) : Prop := ∀ c ∈ text, Text.isBlank c = false

instance (text : List Char) : Decidable (Solid text) :=
  List.decidableBAll (fun c => Text.isBlank c = false) text

theorem splits_term_after_solid {text : List Char} (solid : Solid text) (previous : Option Char) :
    splitsTermAfter previous false text = false := by
  induction text generalizing previous with
  | nil => rfl
  | cons c text ih =>
    have here := solid c List.mem_cons_self
    simp only [splitsTermAfter, here, Bool.false_and, Bool.false_eq_true, if_false]
    exact ih (fun d member => solid d (List.mem_cons_of_mem c member)) (some c)

theorem drop_blanks_solid {text : List Char} (solid : Solid text) :
    text.dropWhile Text.isBlank = text := by
  cases text with
  | nil => rfl
  | cons c text => simp [solid c List.mem_cons_self]

theorem filter_solid {text : List Char} (solid : Solid text) :
    text.filter (!Text.isBlank ·) = text :=
  List.filter_eq_self.mpr fun c member => by simp [solid c member]

theorem trim_solid {text : List Char} (solid : Solid text) : trimBlanks text = text := by
  have reversed : Solid text.reverse := fun c member => solid c (List.mem_reverse.mp member)
  rw [trimBlanks, drop_blanks_solid solid, drop_blanks_solid reversed, List.reverse_reverse]

theorem classify_solid {text : String} (solid : Solid text.toList) :
    classify text =
      match numeric? text.toList with
      | some argument => some argument
      | none => if isIdentifier text then some (.ident text) else none := by
  cases found : numeric? text.toList with
  | some argument =>
      simp [classify, splitsTerm, splits_term_after_solid solid, filter_solid solid, found]
  | none =>
      simp [classify, splitsTerm, splits_term_after_solid solid, filter_solid solid,
        trim_solid solid, found]

/-! The canonical texts of numbers are numerals. -/

theorem numeric_dimension {d : Dimension} (normal : d.Normal) :
    numeric? d.text.toList = some (.dimension d) := by
  rw [← d.text_numeral, Numeral.numeric_in_range d.numeral_in_range,
    Dimension.argument_numeral normal]

theorem numeric_integer {value : Int} (small : value.natAbs < UInt32.size) :
    numeric? value.repr.toList = some (.integer value) := by
  have inRange : (Numeral.ofInt value).InRange := by
    rwa [Numeral.ofInt, Numeral.InRange, Digits.InRange, Digits.value_decimal]
  rw [← Numeral.text_of_int, Numeral.numeric_in_range inRange, Numeral.argument_of_int]

/-- Letters, digits and signs: nothing that ends a token early or splits a term. -/
def Plain (text : List Char) : Prop := ∀ c ∈ text, isIdentChar c = true ∨ c = '+'

theorem plain_numeral (numeral : Numeral) : Plain numeral.text :=
  fun c member => (numeral.text_marks c member).plain

theorem Plain.solid {text : List Char} (plain : Plain text) : Solid text := by
  intro c member
  rcases plain c member with part | rfl
  · exact is_blank_of_is_ident_char c part
  · decide

/-- The readings of numbers give a shaped value and never a name or a string. -/
theorem numeric_cases {text : List Char} {argument : Argument}
    (found : numeric? text = some argument) :
    (∃ value, argument = .integer value ∧ value.natAbs < UInt32.size) ∨
      (∃ word, argument = .keyword word) ∨ ∃ d, argument = .dimension d ∧ d.Normal := by
  unfold numeric? at found
  split at found
  · next value whole =>
    cases found
    obtain ⟨magnitude, -, rfl⟩ := Option.map_eq_some_iff.mp whole
    have small := magnitude.toNat_lt
    refine .inl ⟨_, rfl, ?_⟩
    rwa [Sign.nat_abs_apply]
  · split at found
    · cases found
      exact .inr (.inl ⟨_, rfl⟩)
    · obtain ⟨d, dimension, rfl⟩ := Option.map_eq_some_iff.mp found
      exact .inr (.inr ⟨d, rfl, Dimension.read_normal dimension⟩)

theorem filter_drop_blanks (text : List Char) :
    (text.dropWhile Text.isBlank).filter (!Text.isBlank ·) = text.filter (!Text.isBlank ·) := by
  induction text with
  | nil => rfl
  | cons c text ih => cases blank : Text.isBlank c <;> simp [blank, ih]

theorem filter_trim (text : List Char) :
    (trimBlanks text).filter (!Text.isBlank ·) = text.filter (!Text.isBlank ·) := by
  rw [trimBlanks, List.filter_reverse, filter_drop_blanks, List.filter_reverse,
    List.reverse_reverse, filter_drop_blanks]

theorem identifier_plain {name : String} (identifier : isIdentifier name = true) :
    Plain name.toList :=
  fun c member => .inl (Token.ident_chars identifier c member)

/-- A name that was found is one by itself: it is no number, and it is found again. -/
theorem classify_cases {raw : String} {argument : Argument}
    (found : classify raw = some argument) :
    numeric? (raw.toList.filter (!Text.isBlank ·)) = some argument ∨
      ∃ name, argument = .ident name ∧ isIdentifier name = true ∧
        classify name = some (.ident name) := by
  unfold classify at found
  simp only at found
  split at found
  · cases found
  split at found
  · next numeric =>
    cases found
    exact .inl numeric
  · next noNumber =>
    split at found
    · next identifier =>
      cases found
      refine .inr ⟨_, rfl, identifier, ?_⟩
      have solid := (identifier_plain identifier).solid
      have kept := filter_solid solid
      rw [String.toList_ofList, filter_trim] at kept
      rw [classify_solid solid, String.toList_ofList, ← kept, noNumber, kept]
      simp only [identifier, if_true]
    · cases found

theorem classify_shaped {raw : String} {argument : Argument}
    (found : classify raw = some argument) : argument.Shaped := by
  rcases classify_cases found with numeric | ⟨name, rfl, -, again⟩
  · rcases numeric_cases numeric with ⟨value, rfl, small⟩ | ⟨word, rfl⟩ | ⟨d, rfl, normal⟩
    · exact small
    · exact True.intro
    · exact normal
  · exact again

theorem ident_identifier {name : String} (shaped : Shaped (.ident name)) :
    isIdentifier name = true := by
  rcases classify_cases shaped with numeric | ⟨_, same, identifier, -⟩
  · rcases numeric_cases numeric with ⟨_, same, -⟩ | ⟨_, same⟩ | ⟨_, same, -⟩ <;> cases same
  · cases same
    exact identifier

theorem plain_text {argument : Argument} (shaped : argument.Shaped)
    (unquoted : ∀ value, argument ≠ .string value) : Plain argument.text.toList := by
  cases argument with
  | dimension d =>
    rw [text, ← d.text_numeral]
    exact plain_numeral d.numeral
  | integer value =>
    rw [text, ← Numeral.text_of_int]
    exact plain_numeral _
  | keyword word => cases word <;> exact identifier_plain (by decide)
  | string value => exact absurd rfl (unquoted value)
  | ident name => exact identifier_plain (ident_identifier shaped)

/-- The canonical text of an argument is classified as that argument. -/
theorem classify_text {argument : Argument} (shaped : argument.Shaped)
    (unquoted : ∀ value, argument ≠ .string value) :
    classify argument.text = some argument := by
  have solid := (plain_text shaped unquoted).solid
  cases argument with
  | dimension d => rw [classify_solid solid, text, numeric_dimension shaped]
  | integer value =>
    rw [classify_solid solid]
    simp only [text, numeric_integer shaped]
  | keyword word => cases word <;> decide +kernel
  | string value => exact absurd rfl (unquoted value)
  | ident name => exact shaped

end Argument
end TreeSelect
