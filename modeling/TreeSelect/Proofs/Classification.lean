import TreeSelect.Proofs.SourceText

/-!
Arguments that are numbers, told from the raw text. Where no white space stands inside a term, a
text is classified by what it spells without white space. A run of digits that means 2^32 or more
makes no number, and most such texts are no argument at all. But a name may begin with a minus
sign and may hold digits: where nothing but white space stands around it, a numeral that is too
large and spelled like a name is taken for the name.
-/

namespace TreeSelect

namespace Argument

/-! Classification of whole texts. -/

theorem is_blank_of_is_alphanumeric (c : Char) (part : Text.isAlphanumeric c = true) :
    Text.isBlank c = false := by
  apply eq_false_of_ne_true
  intro blank
  have other := @Text.blank_induction (fun c => Text.isAlphanumeric c = false) c blank
    (by decide +kernel)
  rw [other] at part
  cases part

theorem splits_term_iff (text : List Char) :
    splitsTerm text = true ↔ Text.Parts Text.isAlphanumeric text := by
  rw [splitsTerm, splits_term_after_eq]
  exact Text.parts_iff is_blank_of_is_alphanumeric

instance (text : List Char) : Decidable (Text.Parts Text.isAlphanumeric text) :=
  decidable_of_iff (splitsTerm text = true) (splits_term_iff text)

theorem classify_numeric {raw : String} {argument : Argument}
    (whole : ¬ Text.Parts Text.isAlphanumeric raw.toList)
    (found : numeric? (raw.toList.filter (!Text.isBlank ·)) = some argument) :
    classify raw = some argument := by
  rw [← splits_term_iff] at whole
  rw [classify, if_neg whole]
  simp only [found]

/-- A text is classified as a number, a keyword or `An+B` exactly where it is written as a formula
and no white space stands inside a term; the formula is the one that is written. -/
theorem formula_iff_written (raw : String) (formula : Formula) :
    (∃ argument, classify raw = some argument ∧
        ((∃ value, argument = .integer value) ∨ (∃ word, argument = .keyword word) ∨
          ∃ d, argument = .dimension d) ∧
        argument.formula = some formula) ↔
      ¬ Text.Parts Text.isAlphanumeric raw.toList ∧
        Formula.Written (raw.toList.filter (!Text.isBlank ·)) formula := by
  constructor
  · rintro ⟨argument, classified, -, same⟩
    refine ⟨fun parts => ?_, ?_⟩
    · rw [← splits_term_iff] at parts
      rw [classify, if_pos parts] at classified
      cases classified
    · rw [← numeric_formula_iff]
      rcases classify_cases classified with numeric | ⟨name, rfl, -⟩
      · rw [numeric, Option.bind_some, same]
      · cases same
  · rintro ⟨whole, written⟩
    rw [← numeric_formula_iff] at written
    obtain ⟨argument, numeric, same⟩ := Option.bind_eq_some_iff.mp written
    refine ⟨argument, ?_, ?_, same⟩
    · exact classify_numeric whole numeric
    · rcases numeric_cases numeric with ⟨value, rfl, -⟩ | ⟨word, rfl⟩ | ⟨d, rfl, -⟩
      · exact .inl ⟨value, rfl⟩
      · exact .inr (.inl ⟨word, rfl⟩)
      · exact .inr (.inr ⟨d, rfl⟩)

example : (classify " -2N + 03").bind formula = some ⟨-2, 3⟩ := by decide +kernel

end Argument

/-! Numerals that are spelled like names. -/

theorem Digits.ident_chars (digits : Digits) : ∀ c ∈ digits.text, isIdentChar c = true := by
  intro c member
  simp [isIdentChar, digits.digit c member]

theorem Sign.ident_chars {sign : Option Sign} (noPlus : sign ≠ some .plus) :
    ∀ c ∈ written sign, isIdentChar c = true := by
  rcases sign with none | (plus | minus)
  · exact List.forall_mem_nil _
  · exact absurd rfl noPlus
  · exact List.forall_mem_singleton.mpr (by decide)

namespace Numeral

/-- Spelled like a name: a minus sign or the unknown comes first, and there is no plus sign. -/
def Nameable : Numeral → Prop
  | .whole sign _ _ => sign = some .minus
  | .multiple sign coefficient _ _ offsetSign _ =>
      (sign = some .minus ∨ sign = none ∧ coefficient.text = []) ∧ offsetSign ≠ some .plus

instance : (numeral : Numeral) → Decidable numeral.Nameable
  | .whole sign _ _ => inferInstanceAs (Decidable (sign = some .minus))
  | .multiple sign coefficient _ _ offsetSign _ => inferInstanceAs (Decidable
      ((sign = some .minus ∨ sign = none ∧ coefficient.text = []) ∧ offsetSign ≠ some .plus))

/-- No digit and no plus sign begins a name. -/
theorem sign_of_start {sign : Option Sign} {digits : Digits} {rest others : List Char}
    {first : Char} (same : Sign.written sign ++ (digits.text ++ rest) = first :: others)
    (start : isIdentStart first = true) :
    sign = some .minus ∨ sign = none ∧ digits.text = [] := by
  rcases sign with none | (plus | minus)
  · right
    refine ⟨rfl, ?_⟩
    have digit := digits.digit
    cases text : digits.text with
    | nil => rfl
    | cons c tail =>
        rw [text] at same digit
        cases same
        rw [is_ident_start_of_is_digit first (digit first List.mem_cons_self)] at start
        cases start
  · cases same
    exact absurd start (by decide)
  · exact .inl rfl

theorem identifier_iff (numeral : Numeral) :
    isIdentifier (String.ofList numeral.text) = true ↔ numeral.Nameable := by
  rw [Token.is_identifier_iff, String.toList_ofList]
  cases numeral with
  | whole sign digits filled =>
      constructor
      · rintro ⟨first, others, same, start, -, -⟩
        rw [text, ← List.append_nil digits.text] at same
        exact (sign_of_start same start).resolve_right fun none => filled none.2
      · rintro rfl
        exact ⟨'-', digits.text, rfl, by decide, digits.ident_chars, fun _ => filled⟩
  | multiple sign coefficient letter unknown offsetSign offset =>
      have starts : isIdentStart letter = true := by
        rcases unknown with rfl | rfl <;> decide
      constructor
      · rintro ⟨first, others, same, start, member, -⟩
        refine ⟨sign_of_start same start, ?_⟩
        rintro rfl
        have all : ∀ c ∈ first :: others, isIdentChar c = true :=
          List.forall_mem_cons.mpr ⟨is_ident_char_of_start first start, member⟩
        rw [← same] at all
        exact absurd (all '+' (by simp [text, Sign.written])) (by decide)
      · rintro ⟨first, noPlus⟩
        have behind : ∀ c ∈ Sign.written offsetSign ++ offset.text, isIdentChar c = true :=
          List.forall_mem_append.mpr ⟨Sign.ident_chars noPlus, offset.ident_chars⟩
        have tail : ∀ c ∈ letter :: (Sign.written offsetSign ++ offset.text),
            isIdentChar c = true :=
          List.forall_mem_cons.mpr ⟨is_ident_char_of_start letter starts, behind⟩
        rcases first with rfl | ⟨rfl, none⟩
        · exact ⟨'-', coefficient.text ++ letter :: (Sign.written offsetSign ++ offset.text), rfl,
            by decide, List.forall_mem_append.mpr ⟨coefficient.ident_chars, tail⟩, by simp⟩
        · refine ⟨letter, _, by simp [text, none, Sign.written], starts, behind, ?_⟩
          rcases unknown with rfl | rfl <;> exact fun minus => absurd minus (by decide)

end Numeral

/-! Numerals with white space anywhere may stand in parentheses. -/

theorem bare_of_plain (text : List Char)
    (plain : Argument.Plain (text.filter (!Text.isBlank ·))) :
    ∀ lexeme ∈ lexemes text, Token.Bare lexeme.token.kind ∨ lexeme.token.kind = .eof := by
  induction text using text_induction with
  | blank gap blank =>
      rw [lexemes_blank_alone blank]
      exact List.forall_mem_singleton.mpr (.inr rfl)
  | token gap piece token left blank taken ih =>
      obtain ⟨c, tail, rfl, solid, read⟩ := taken.spelt left (.inl rfl)
      have marks : ∀ d ∈ c :: (tail ++ left), Text.isBlank d = false →
          isIdentChar d = true ∨ d = '+' := by
        intro d member solid
        apply plain d
        simp only [List.mem_filter, solid, Bool.not_false, and_true]
        exact List.mem_append_right gap member
      have noCall : '(' ∉ c :: (tail ++ left) :=
        fun call => absurd (marks '(' call (by decide)) (by decide)
      rw [lexemes_token blank (taken.spelt left (.inl rfl)) taken.more]
      refine List.forall_mem_cons.mpr ⟨.inl ?_, ih ?_⟩
      · exact Token.bare_of_read_at (marks c List.mem_cons_self solid) noCall read
      · intro d member
        obtain ⟨here, solid⟩ := List.mem_filter.mp member
        exact marks d (by simp [here]) (by simpa using solid)
  | unclosed gap quote rest blank mark absent =>
      have part := plain quote (by simp [Text.is_blank_of_is_quote mark])
      simp only [Token.isQuote, Bool.or_eq_true, beq_iff_eq] at mark
      rcases mark with rfl | rfl <;> exact absurd part (by decide)

theorem enclosable_of_plain {text : String}
    (plain : Argument.Plain (text.toList.filter (!Text.isBlank ·))) : Text.Enclosable text := by
  intro token member
  obtain ⟨lexeme, listed, rfl⟩ := List.mem_map.mp member
  rcases bare_of_plain text.toList plain lexeme listed with (kind | kind | kind | kind) | kind <;>
    simp [kind]

namespace Argument

section
variable {numeral : Numeral} {raw : String}
  (spelled : raw.toList.filter (!Text.isBlank ·) = numeral.text)
include spelled

theorem name_of_numeral_iff : isIdentifier (String.ofList (trimBlanks raw.toList)) = true ↔
    numeral.Nameable ∧ trimBlanks raw.toList = numeral.text := by
  constructor
  · intro identifier
    have solid := (identifier_plain identifier).solid
    rw [String.toList_ofList] at solid
    have same : trimBlanks raw.toList = numeral.text := by
      rw [← filter_solid solid, filter_trim, spelled]
    rw [same] at identifier
    exact ⟨numeral.identifier_iff.mp identifier, same⟩
  · rintro ⟨nameable, same⟩
    rw [same]
    exact numeral.identifier_iff.mpr nameable

variable (whole : ¬ Text.Parts Text.isAlphanumeric raw.toList)
include whole

theorem classify_in_range (small : numeral.InRange) : classify raw = some numeral.argument := by
  apply classify_numeric whole
  rw [spelled]
  exact Numeral.numeric_in_range small

theorem classify_too_large (large : ¬ numeral.InRange) :
    classify raw = if isIdentifier (String.ofList (trimBlanks raw.toList)) then
      some (.ident (String.ofList (trimBlanks raw.toList))) else none := by
  rw [← splits_term_iff] at whole
  rw [classify, if_neg whole, spelled, Numeral.numeric_too_large large]

end

/-- A numeral is never taken for a name, and out of range it is refused, unless it is too large,
spelled like a name and written in one piece: then it is taken for that name. -/
theorem numeral_refused_iff {numeral : Numeral} {raw : String}
    (spelled : raw.toList.filter (!Text.isBlank ·) = numeral.text)
    (whole : ¬ Text.Parts Text.isAlphanumeric raw.toList) :
    (((∀ name, classify raw ≠ some (.ident name)) ∧
        (¬ numeral.InRange → classify raw = none ∧
          ∀ name, isIdentifier name = true → Text.sameName name "not" = false →
            Text.sameName name "has" = false →
            parse (":" ++ name ++ "(" ++ raw ++ ")") =
              .error (.malformedArgument name (String.ofList (Text.condensed raw.toList))))) ↔
      numeral.InRange ∨ ¬ (numeral.Nameable ∧ trimBlanks raw.toList = numeral.text)) ∧
    (¬ numeral.InRange → numeral.Nameable → trimBlanks raw.toList = numeral.text →
      classify raw = some (.ident (String.ofList numeral.text))) := by
  have named := name_of_numeral_iff spelled
  by_cases small : numeral.InRange
  · have number := classify_in_range spelled whole small
    refine ⟨iff_of_true ⟨fun name taken => ?_, absurd small⟩ (.inl small), absurd small⟩
    rw [number] at taken
    cases numeral <;> cases taken
  · have outcome := classify_too_large spelled whole small
    by_cases name : numeral.Nameable ∧ trimBlanks raw.toList = numeral.text
    · rw [if_pos (named.mpr name), name.2] at outcome
      refine ⟨iff_of_false (fun both => both.1 _ outcome) ?_, fun _ _ _ => outcome⟩
      exact not_or.mpr ⟨small, fun other => other name⟩
    · rw [if_neg (name ∘ named.mp)] at outcome
      have enclosable : Text.Enclosable raw := by
        apply enclosable_of_plain
        rw [spelled]
        exact plain_numeral numeral
      refine ⟨iff_of_true ⟨?_, ?_⟩ (.inr name), fun _ nameable same => absurd ⟨nameable, same⟩ name⟩
      · simp [outcome]
      · exact fun _ => ⟨outcome, fun name identifier notNot notHas =>
          parse_call_refused identifier notNot notHas enclosable outcome⟩

/-- One unit below the smallest integer: in one piece it is a name, with white space behind the
sign it is nothing. -/
theorem two_to_32_named_and_refused :
    classify "\t-4294967296" = some (.ident "-4294967296") ∧
      parse (":" ++ "nth-child" ++ "(" ++ "- 4294967296" ++ ")") =
        .error (.malformedArgument "nth-child" "- 4294967296") := by
  have named := @numeral_refused_iff
    (.whole (some .minus) (.decimal UInt32.size) (Digits.decimal_filled _))
    "\t-4294967296" (by decide +kernel) (by decide +kernel)
  have refused := @numeral_refused_iff
    (.whole (some .minus) (.decimal UInt32.size) (Digits.decimal_filled _))
    "- 4294967296" (by decide +kernel) (by decide +kernel)
  have outOfReach := refused.1.mpr (.inr (by decide +kernel))
  exact ⟨named.2 (by decide +kernel) rfl (by decide +kernel),
    (outOfReach.2 (by decide +kernel)).2 "nth-child" (by decide) (by decide +kernel)
      (by decide +kernel)⟩

end Argument
end TreeSelect
