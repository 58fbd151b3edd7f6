import TreeSelect.Proofs.Scanning
import TreeSelect.Selector.Argument

/-!
Numbers and `An+B` as they are written. A `Numeral` is a spelling without white space, with
digits in any number, and its formula is made of the numbers that stand there. The numeric
readings give this formula exactly where every run of digits is below 2^32; beside the two
keywords there is no other way to write a formula.
-/

namespace TreeSelect

namespace Text

theorem decimal_digits (value : Nat) : ∀ c ∈ Nat.toDigits 10 value, c.isDigit = true :=
  fun _ member => Nat.isDigit_of_mem_toDigits (by decide) (by decide) member

theorem magnitude_none {text : List Char} {c : Char} (member : c ∈ text)
    (other : c.isDigit = false) : magnitude? text = none := by
  cases found : magnitude? text with
  | none => rfl
  | some value =>
    have digits := ((magnitude_eq_some_iff text value).mp found).2.1 c member
    rw [other] at digits
    cases digits

theorem same_name_lower_iff {word : String} (lower : foldCase word = word) (text : List Char) :
    sameName (String.ofList text) word = true ↔ text.map Char.toLower = word.toList := by
  rw [same_name_iff, lower, foldCase, ← String.toList_inj, String.toList_map,
    String.toList_ofList]

end Text

namespace Sign

theorem split_of_head {text : List Char} (plain : ∀ c ∈ text.head?, c ≠ '-' ∧ c ≠ '+') :
    split text = (.plus, text) := by
  unfold split
  split
  · exact absurd rfl (plain '-' rfl).1
  · exact absurd rfl (plain '+' rfl).2
  · rfl

theorem digit_unsigned {c : Char} (digit : c.isDigit = true) : c ≠ '-' ∧ c ≠ '+' := by
  constructor <;> rintro rfl <;> exact absurd digit (by decide)

end Sign

/-- ASCII digits in any number, also none. -/
structure Digits where
  text : List Char
  digit : ∀ c ∈ text, c.isDigit = true

namespace Digits

def value (digits : Digits) : Nat := Nat.ofDigitChars 10 digits.text 0

/-- The digits that a number is printed with. -/
def decimal (value : Nat) : Digits := ⟨Nat.toDigits 10 value, Text.decimal_digits value⟩

/-- The same where one number is left out. -/
def shown (missing value : Nat) : Digits :=
  if value = missing then ⟨[], List.forall_mem_nil _⟩ else decimal value

/-- The value is below 2^32. -/
def InRange (digits : Digits) : Prop := digits.value < UInt32.size

instance (digits : Digits) : Decidable digits.InRange :=
  inferInstanceAs (Decidable (digits.value < UInt32.size))

/-- Digits that are left out stand for a number of their own. -/
def valueOr (missing : Nat) (digits : Digits) : Nat :=
  if digits.text = [] then missing else digits.value

theorem unsigned (digits : Digits) {rest : List Char}
    (plain : ∀ c ∈ rest.head?, c ≠ '-' ∧ c ≠ '+') :
    ∀ c ∈ (digits.text ++ rest).head?, c ≠ '-' ∧ c ≠ '+' := by
  cases first : digits.text with
  | nil => exact plain
  | cons c others =>
      intro d head
      obtain rfl : c = d := Option.some.inj head
      exact Sign.digit_unsigned (digits.digit c (by simp [first]))

theorem unsigned_alone (digits : Digits) : ∀ c ∈ digits.text.head?, c ≠ '-' ∧ c ≠ '+' := by
  intro c head
  exact Sign.digit_unsigned (digits.digit c (List.mem_of_mem_head? head))

theorem value_decimal (value : Nat) : (decimal value).value = value :=
  Nat.ofDigitChars_ten_toDigits

theorem decimal_filled (value : Nat) : (decimal value).text ≠ [] := Nat.toDigits_ne_nil

theorem text_shown (missing value : UInt32) :
    (shown missing.toNat value.toNat).text =
      (if value = missing then "" else Nat.repr value.toNat).toList := by
  by_cases same : value = missing
  · simp [shown, same]
  · have differ : value.toNat ≠ missing.toNat := same ∘ UInt32.toNat_inj.mp
    simp [shown, same, differ, decimal]

theorem value_or_shown (missing value : Nat) : (shown missing value).valueOr missing = value := by
  unfold shown
  split
  · next same => simp [valueOr, same]
  · simp [valueOr, decimal_filled, value_decimal]

theorem shown_in_range (missing value : UInt32) :
    (shown missing.toNat value.toNat).InRange := by
  unfold shown
  split
  · simp [InRange, Digits.value]
  · rw [InRange, value_decimal]
    exact value.toNat_lt

theorem magnitude_in_range {digits : Digits} (filled : digits.text ≠ []) (small : digits.InRange) :
    Text.magnitude? digits.text = some (UInt32.ofNat digits.value) := by
  rw [Text.magnitude_eq_some_iff, UInt32.toNat_ofNat_of_lt' small]
  exact ⟨filled, digits.digit, rfl⟩

theorem magnitude_too_large {digits : Digits} (large : ¬ digits.InRange) :
    Text.magnitude? digits.text = none := by
  cases found : Text.magnitude? digits.text with
  | none => rfl
  | some magnitude =>
      obtain ⟨-, -, exact⟩ := (Text.magnitude_eq_some_iff _ _).mp found
      exact absurd (Nat.lt_of_le_of_lt (Nat.le_of_eq exact) magnitude.toNat_lt) large

theorem to_nat_value_or (missing : UInt32) {digits : Digits} (small : digits.InRange) :
    (UInt32.ofNat (digits.valueOr missing.toNat)).toNat = digits.valueOr missing.toNat := by
  apply UInt32.toNat_ofNat_of_lt'
  unfold valueOr
  split
  · exact missing.toNat_lt
  · exact small

theorem or_in_range (missing : UInt32) {digits : Digits} (small : digits.InRange) :
    Dimension.digitsOr missing digits.text =
      some (UInt32.ofNat (digits.valueOr missing.toNat)) := by
  unfold Dimension.digitsOr valueOr
  by_cases none : digits.text = []
  · simp [none]
  · simp [none, magnitude_in_range none small]

theorem or_too_large (missing : UInt32) {digits : Digits} (large : ¬ digits.InRange) :
    Dimension.digitsOr missing digits.text = none := by
  have filled : digits.text ≠ [] := by
    intro none
    apply large
    simp [InRange, value, none]
  simp [Dimension.digitsOr, filled, magnitude_too_large large]

theorem of_read {missing magnitude : UInt32} {text : List Char}
    (found : Dimension.digitsOr missing text = some magnitude) :
    ∃ digits : Digits, digits.text = text := by
  unfold Dimension.digitsOr at found
  split at found
  · next none => exact ⟨⟨[], List.forall_mem_nil _⟩, (List.isEmpty_iff.mp none).symm⟩
  · exact ⟨⟨text, ((Text.magnitude_eq_some_iff _ _).mp found).2.1⟩, rfl⟩

end Digits

namespace Sign

/-- A sign may be left out. -/
def written : Option Sign → List Char
  | none => []
  | some .plus => ['+']
  | some .minus => ['-']

def signed (sign : Option Sign) (magnitude : Nat) : Int :=
  if sign = some .minus then -magnitude else magnitude

theorem mem_written {sign : Option Sign} {c : Char} (member : c ∈ written sign) :
    c = '-' ∨ c = '+' := by
  rcases sign with none | (plus | minus)
  · cases member
  · exact .inr (List.mem_singleton.mp member)
  · exact .inl (List.mem_singleton.mp member)

theorem apply_signed (sign : Option Sign) (magnitude : UInt32) :
    (sign.getD .plus).apply magnitude = signed sign magnitude.toNat := by
  rcases sign with none | (plus | minus) <;> rfl

theorem split_written (sign : Option Sign) {rest : List Char}
    (unsigned : ∀ c ∈ rest.head?, c ≠ '-' ∧ c ≠ '+') :
    split (written sign ++ rest) = (sign.getD .plus, rest) := by
  rcases sign with none | (plus | minus)
  · exact split_of_head unsigned
  · rfl
  · rfl

theorem exists_written (text : List Char) :
    ∃ sign rest, text = written sign ++ rest ∧ split text = (sign.getD .plus, rest) := by
  unfold split
  split
  · next rest => exact ⟨some .minus, rest, rfl, rfl⟩
  · next rest => exact ⟨some .plus, rest, rfl, rfl⟩
  · exact ⟨none, _, rfl, rfl⟩

end Sign

/-- `[sign]digits`, and `[sign][digits]n[sign][digits]` with either case of the letter. -/
inductive Numeral where
  | whole (sign : Option Sign) (digits : Digits) (filled : digits.text ≠ [])
  | multiple (sign : Option Sign) (coefficient : Digits) (letter : Char)
      (unknown : letter = 'n' ∨ letter = 'N') (offsetSign : Option Sign) (offset : Digits)

namespace Numeral

def text : Numeral → List Char
  | .whole sign digits _ => Sign.written sign ++ digits.text
  | .multiple sign coefficient letter _ offsetSign offset =>
      Sign.written sign ++
        (coefficient.text ++ letter :: (Sign.written offsetSign ++ offset.text))

def InRange : Numeral → Prop
  | .whole _ digits _ => digits.InRange
  | .multiple _ coefficient _ _ _ offset => coefficient.InRange ∧ offset.InRange

def formula : Numeral → Formula
  | .whole sign digits _ => ⟨0, Sign.signed sign digits.value⟩
  | .multiple sign coefficient _ _ offsetSign offset =>
      ⟨Sign.signed sign (coefficient.valueOr 1), Sign.signed offsetSign (offset.valueOr 0)⟩

instance : (numeral : Numeral) → Decidable numeral.InRange
  | .whole _ digits _ => inferInstanceAs (Decidable digits.InRange)
  | .multiple _ coefficient _ _ _ offset =>
      inferInstanceAs (Decidable (coefficient.InRange ∧ offset.InRange))

/-- What a numeral in range is classified as. -/
def argument : Numeral → Argument
  | .whole sign digits _ => .integer (Sign.signed sign digits.value)
  | .multiple sign coefficient _ _ offsetSign offset =>
      .dimension (.normal (sign.getD .plus) (UInt32.ofNat (coefficient.valueOr 1))
        (offsetSign.getD .plus) (UInt32.ofNat (offset.valueOr 0)))

/-- The characters that numerals are made of. -/
def Mark (c : Char) : Prop := c.isDigit = true ∨ c = '-' ∨ c = '+' ∨ c = 'n' ∨ c = 'N'

/-- Neither keyword is spelled with these alone. -/
theorem Mark.lower {c : Char} (mark : Mark c) : c.toLower ≠ 'o' ∧ c.toLower ≠ 'e' := by
  rcases mark with digit | rfl | rfl | rfl | rfl
  · exact @Text.digit_induction (fun c => c.toLower ≠ 'o' ∧ c.toLower ≠ 'e') c digit (by decide)
  all_goals decide

theorem Mark.plain {c : Char} (mark : Mark c) : isIdentChar c = true ∨ c = '+' := by
  rcases mark with digit | rfl | rfl | rfl | rfl
  · exact .inl (by simp [isIdentChar, digit])
  · exact .inl (by decide)
  · exact .inr rfl
  all_goals exact .inl (by decide)

end Numeral

/-- The texts without white space that a formula can be written as. -/
inductive Formula.Written : List Char → Formula → Prop where
  | numeral (numeral : Numeral) : numeral.InRange → Written numeral.text numeral.formula
  | odd {text : List Char} : text.map Char.toLower = ['o', 'd', 'd'] → Written text ⟨2, 1⟩
  | even {text : List Char} : text.map Char.toLower = ['e', 'v', 'e', 'n'] → Written text ⟨2, 0⟩

/-! Numerals are read as what is written there. -/

namespace Dimension

theorem apply_normal (sign : Sign) (magnitude : UInt32) :
    (if magnitude = 0 then Sign.plus else sign).apply magnitude = sign.apply magnitude := by
  by_cases zero : magnitude = 0
  · cases sign <;> simp [zero, Sign.apply]
  · rw [if_neg zero]

theorem formula_normal (aSign bSign : Sign) (a b : UInt32) :
    (normal aSign a bSign b).formula = ⟨aSign.apply a, bSign.apply b⟩ := by
  simp only [formula, step, offset, normal, apply_normal]

theorem is_unknown_iff (c : Char) : isUnknown c = true ↔ c = 'n' ∨ c = 'N' := by
  simp [isUnknown]

theorem digits_unknown {c : Char} (digit : c.isDigit = true) : (!isUnknown c) = true := by
  simp only [isUnknown, Bool.not_or, Bool.and_eq_true, Bool.not_eq_true', beq_eq_false_iff_ne]
  constructor <;> rintro rfl <;> exact absurd digit (by decide)

theorem read_written (sign : Option Sign) (coefficient : Digits) {letter : Char}
    (unknown : letter = 'n' ∨ letter = 'N') (offsetSign : Option Sign) (offset : Digits) :
    read? (Sign.written sign ++
        (coefficient.text ++ letter :: (Sign.written offsetSign ++ offset.text))) =
      (digitsOr 1 coefficient.text).bind fun a => (digitsOr 0 offset.text).map fun b =>
        normal (sign.getD .plus) a (offsetSign.getD .plus) b := by
  have plain : ∀ c ∈ (letter :: (Sign.written offsetSign ++ offset.text)).head?,
      c ≠ '-' ∧ c ≠ '+' := by
    rintro c ⟨⟩
    rcases unknown with rfl | rfl <;> decide
  obtain ⟨taken, left⟩ := @Token.span_stopped (!isUnknown ·) coefficient.text
    (letter :: (Sign.written offsetSign ++ offset.text))
    (fun c member => digits_unknown (coefficient.digit c member))
    (by simpa using (is_unknown_iff letter).mpr unknown)
  simp only [read?, Sign.split_written sign (coefficient.unsigned plain), taken, left,
    Sign.split_written offsetSign offset.unsigned_alone]
  cases digitsOr 1 coefficient.text <;> cases digitsOr 0 offset.text <;> rfl

theorem read_whole (sign : Option Sign) (digits : Digits) :
    read? (Sign.written sign ++ digits.text) = none := by
  have known := @List.dropWhile_append_of_pos _ (!isUnknown ·) digits.text []
    fun c member => digits_unknown (digits.digit c member)
  rw [List.append_nil] at known
  simp only [read?, Sign.split_written sign digits.unsigned_alone, known, List.dropWhile_nil]

end Dimension

namespace Argument

theorem integer_whole (sign : Option Sign) (digits : Digits) :
    integer? (Sign.written sign ++ digits.text) =
      (Text.magnitude? digits.text).map (sign.getD .plus).apply := by
  simp only [integer?, Sign.split_written sign digits.unsigned_alone]

/-- Behind its sign, a whole number has no character but digits. -/
theorem integer_none {text : List Char} {c : Char} (member : c ∈ text)
    (other : c.isDigit = false ∧ c ≠ '-' ∧ c ≠ '+') : integer? text = none := by
  obtain ⟨sign, rest, rfl, split⟩ := Sign.exists_written text
  have behind : c ∈ rest := by
    refine (List.mem_append.mp member).resolve_left fun mark => ?_
    rcases Sign.mem_written mark with minus | plus
    · exact other.2.1 minus
    · exact other.2.2 plus
  simp only [integer?, split, Text.magnitude_none behind other.1, Option.map_none]

theorem keyword_none {text : List Char}
    (other : ∀ c ∈ text, c.toLower ≠ 'o' ∧ c.toLower ≠ 'e') : keyword? text = none := by
  have absent : ∀ mark, (∀ c ∈ text, c.toLower ≠ mark) → mark ∉ text.map Char.toLower := by
    intro mark other member
    obtain ⟨c, here, lower⟩ := List.mem_map.mp member
    exact other c here lower
  have odd : ¬ Text.sameName (String.ofList text) "odd" = true := by
    rw [Text.same_name_lower_iff (by decide +kernel)]
    intro letters
    exact absent 'o' (fun c member => (other c member).1) (by simp [letters])
  have even : ¬ Text.sameName (String.ofList text) "even" = true := by
    rw [Text.same_name_lower_iff (by decide +kernel)]
    intro letters
    exact absent 'e' (fun c member => (other c member).2) (by simp [letters])
  rw [keyword?, if_neg odd, if_neg even]

theorem keyword_iff (text : List Char) (word : NthKeyword) :
    keyword? text = some word ↔ text.map Char.toLower = (keyword word).text.toList := by
  have odd := @Text.same_name_lower_iff "odd" (by decide +kernel) text
  have even := @Text.same_name_lower_iff "even" (by decide +kernel) text
  rw [keyword?]
  by_cases first : Text.sameName (String.ofList text) "odd" = true
  · have letters := odd.mp first
    cases word <;> simp [first, Argument.text, letters]
  · rw [if_neg first]
    cases word with
    | odd =>
        refine iff_of_false ?_ (first ∘ odd.mpr)
        split <;> simp
    | even =>
        rw [Argument.text, ← even]
        by_cases second : Text.sameName (String.ofList text) "even" = true <;> simp [second]

/-- The keywords begin with a letter that no number is spelled with. -/
theorem numeric_keyword {text : List Char} {word : NthKeyword}
    (letters : text.map Char.toLower = (keyword word).text.toList) :
    numeric? text = some (.keyword word) := by
  have first : ∃ c ∈ text, c.toLower = 'o' ∨ c.toLower = 'e' := by
    have head : 'o' ∈ text.map Char.toLower ∨ 'e' ∈ text.map Char.toLower := by
      rw [letters]
      cases word <;> decide
    rcases head with member | member <;> obtain ⟨c, here, lower⟩ := List.mem_map.mp member
    · exact ⟨c, here, .inl lower⟩
    · exact ⟨c, here, .inr lower⟩
  obtain ⟨c, member, lower⟩ := first
  have noMark : ¬ Numeral.Mark c := fun mark => lower.elim mark.lower.1 mark.lower.2
  simp only [Numeral.Mark, not_or] at noMark
  have noNumber := integer_none member ⟨eq_false_of_ne_true noMark.1, noMark.2.1, noMark.2.2.1⟩
  simp only [numeric?, noNumber, (keyword_iff text word).mpr letters]

end Argument

namespace Numeral

theorem text_marks (numeral : Numeral) : ∀ c ∈ numeral.text, Mark c := by
  have sign : ∀ {sign : Option Sign} {c : Char}, c ∈ Sign.written sign → Mark c :=
    fun member => (Sign.mem_written member).elim (fun minus => .inr (.inl minus))
      fun plus => .inr (.inr (.inl plus))
  have digit : ∀ (digits : Digits) {c : Char}, c ∈ digits.text → Mark c :=
    fun digits c member => .inl (digits.digit c member)
  intro c member
  cases numeral with
  | whole first digits filled =>
      exact (List.mem_append.mp member).elim sign (digit digits)
  | multiple first coefficient letter unknown second offset =>
      simp only [text, List.mem_append, List.mem_cons] at member
      rcases member with member | member | rfl | member | member
      · exact sign member
      · exact digit coefficient member
      · exact .inr (.inr (.inr unknown))
      · exact sign member
      · exact digit offset member

theorem keyword_text (numeral : Numeral) : Argument.keyword? numeral.text = none :=
  Argument.keyword_none fun c member => (numeral.text_marks c member).lower

/-- Up to the range, reading a numeral is a matter of its digits alone. -/
theorem numeric_whole (sign : Option Sign) (digits : Digits) (filled : digits.text ≠ []) :
    Argument.numeric? (whole sign digits filled).text =
      (Text.magnitude? digits.text).map fun magnitude =>
        .integer ((sign.getD .plus).apply magnitude) := by
  have noWord := keyword_text (whole sign digits filled)
  simp only [text] at noWord ⊢
  simp only [Argument.numeric?, Argument.integer_whole, noWord, Dimension.read_whole]
  cases Text.magnitude? digits.text <;> rfl

theorem numeric_multiple (sign : Option Sign) (coefficient : Digits) {letter : Char}
    (unknown : letter = 'n' ∨ letter = 'N') (offsetSign : Option Sign) (offset : Digits) :
    Argument.numeric? (multiple sign coefficient letter unknown offsetSign offset).text =
      ((Dimension.digitsOr 1 coefficient.text).bind fun a =>
        (Dimension.digitsOr 0 offset.text).map fun b =>
          .normal (sign.getD .plus) a (offsetSign.getD .plus) b).map .dimension := by
  have noWord := keyword_text (multiple sign coefficient letter unknown offsetSign offset)
  have noNumber : Argument.integer?
      (multiple sign coefficient letter unknown offsetSign offset).text = none := by
    refine @Argument.integer_none _ letter (by simp [text]) ?_
    rcases unknown with rfl | rfl <;> decide
  simp only [text] at noWord noNumber ⊢
  simp only [Argument.numeric?, noNumber, noWord, Dimension.read_written sign coefficient unknown]

theorem numeric_in_range {numeral : Numeral} (small : numeral.InRange) :
    Argument.numeric? numeral.text = some numeral.argument := by
  cases numeral with
  | whole sign digits filled =>
      rw [numeric_whole, Digits.magnitude_in_range filled small, Option.map_some,
        Sign.apply_signed, UInt32.toNat_ofNat_of_lt' small]
      rfl
  | multiple sign coefficient letter unknown offsetSign offset =>
      rw [numeric_multiple, Digits.or_in_range 1 small.1, Digits.or_in_range 0 small.2]
      rfl

theorem numeric_too_large {numeral : Numeral} (large : ¬ numeral.InRange) :
    Argument.numeric? numeral.text = none := by
  cases numeral with
  | whole sign digits filled =>
      rw [numeric_whole, Digits.magnitude_too_large large, Option.map_none]
  | multiple sign coefficient letter unknown offsetSign offset =>
      rw [numeric_multiple]
      by_cases small : coefficient.InRange
      · rw [Digits.or_in_range 1 small, Digits.or_too_large 0 fun there => large ⟨small, there⟩]
        rfl
      · rw [Digits.or_too_large 1 small]
        rfl

/-- No bound on a number changes its value. -/
theorem formula_argument {numeral : Numeral} (small : numeral.InRange) :
    numeral.argument.formula = some numeral.formula := by
  cases numeral with
  | whole sign digits filled => rfl
  | multiple sign coefficient letter unknown offsetSign offset =>
      have a : (UInt32.ofNat (coefficient.valueOr 1)).toNat = coefficient.valueOr 1 :=
        Digits.to_nat_value_or 1 small.1
      have b : (UInt32.ofNat (offset.valueOr 0)).toNat = offset.valueOr 0 :=
        Digits.to_nat_value_or 0 small.2
      simp only [argument, Argument.formula, Dimension.formula_normal, Sign.apply_signed, a, b,
        formula]

end Numeral

/-! What is read as a number was spelled as one. -/

namespace Argument

theorem numeral_of_integer {text : List Char} {value : Int} (found : integer? text = some value) :
    ∃ numeral : Numeral, numeral.text = text := by
  obtain ⟨sign, rest, rfl, split⟩ := Sign.exists_written text
  simp only [integer?, split] at found
  obtain ⟨magnitude, digits, -⟩ := Option.map_eq_some_iff.mp found
  obtain ⟨filled, digit, -⟩ := (Text.magnitude_eq_some_iff _ _).mp digits
  exact ⟨.whole sign ⟨rest, digit⟩ filled, rfl⟩

theorem numeral_of_dimension {text : List Char} {d : Dimension}
    (found : Dimension.read? text = some d) : ∃ numeral : Numeral, numeral.text = text := by
  obtain ⟨sign, rest, rfl, split⟩ := Sign.exists_written text
  have whole := List.takeWhile_append_dropWhile (p := (!Dimension.isUnknown ·)) (l := rest)
  have stops := Token.head_drop_while (!Dimension.isUnknown ·) rest
  simp only [Dimension.read?, split] at found
  cases left : rest.dropWhile (!Dimension.isUnknown ·) with
  | nil =>
      rw [left] at found
      cases found
  | cons letter tail =>
      obtain ⟨offsetSign, behind, rfl, splitTail⟩ := Sign.exists_written tail
      simp only [left, splitTail] at found
      rw [left] at whole stops
      have unknown := (Dimension.is_unknown_iff letter).mp (by simpa using stops letter rfl)
      split at found
      · next a b first second =>
        obtain ⟨coefficient, digits⟩ := Digits.of_read first
        obtain ⟨offset, rfl⟩ := Digits.of_read second
        refine ⟨.multiple sign coefficient letter unknown offsetSign offset, ?_⟩
        rw [Numeral.text, digits, whole]
      · cases found

/-- Every numeric reading is told by how the text is written. -/
theorem numeric_formula_iff (text : List Char) (formula : Formula) :
    (numeric? text).bind Argument.formula = some formula ↔ Formula.Written text formula := by
  constructor
  · intro found
    obtain ⟨argument, numeric, same⟩ := Option.bind_eq_some_iff.mp found
    have ofNumeral : (∃ numeral : Numeral, numeral.text = text) →
        Formula.Written text formula := by
      rintro ⟨numeral, rfl⟩
      by_cases small : numeral.InRange
      · rw [Numeral.numeric_in_range small] at numeric
        cases numeric
        rw [Numeral.formula_argument small] at same
        cases same
        exact .numeral numeral small
      · rw [Numeral.numeric_too_large small] at numeric
        cases numeric
    unfold numeric? at numeric
    split at numeric
    · next value whole => exact ofNumeral (numeral_of_integer whole)
    · split at numeric
      · next word spelled =>
        cases numeric
        have letters := (keyword_iff text word).mp spelled
        cases word with
        | odd =>
            cases same
            exact .odd letters
        | even =>
            cases same
            exact .even letters
      · obtain ⟨d, dimension, -⟩ := Option.map_eq_some_iff.mp numeric
        exact ofNumeral (numeral_of_dimension dimension)
  · intro written
    cases written with
    | numeral numeral small =>
        rw [Numeral.numeric_in_range small, Option.bind_some, Numeral.formula_argument small]
    | odd letters =>
        rw [@numeric_keyword text .odd letters]
        rfl
    | even letters =>
        rw [@numeric_keyword text .even letters]
        rfl

end Argument
end TreeSelect
