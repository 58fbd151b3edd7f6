import TreeSelect.Token.Lexeme

/-!
The character classes against each other. Letters, white space and the marks of the
selector language are three separate classes; what follows is all that is ever needed of
the tables of letters.
-/

namespace TreeSelect

namespace Text

/-- White space is 25 code points, and what holds of these holds of all white space. -/
theorem blank_induction {property : Char → Prop} (c : Char) (blank : isBlank c = true)
    (listed : ∀ range ∈ blankRanges, ∀ offset < range.2 + 1 - range.1,
      property (Char.ofNat (range.1 + offset))) : property c := by
  obtain ⟨range, member, low, high⟩ := (in_ranges_iff blankRanges c).mp blank
  have found := listed range member (c.toNat - range.1) (by omega)
  rwa [show range.1 + (c.toNat - range.1) = c.toNat by omega, Char.ofNat_toNat] at found

theorem is_alphabetic_of_is_blank (c : Char) (blank : isBlank c = true) :
    isAlphabetic c = false :=
  @blank_induction (fun c => isAlphabetic c = false) c blank (by decide +kernel)

/-- What holds of the ten digits holds of every digit. -/
theorem digit_induction {property : Char → Prop} (c : Char) (digit : c.isDigit = true)
    (listed : ∀ offset < 10, property (Char.ofNat (48 + offset))) : property c := by
  have bounds : 48 ≤ c.toNat ∧ c.toNat ≤ 57 := by
    simpa [Char.isDigit, UInt32.le_iff_toNat_le] using digit
  have found := listed (c.toNat - 48) (by omega)
  rwa [show 48 + (c.toNat - 48) = c.toNat by omega, Char.ofNat_toNat] at found

theorem is_blank_of_is_digit (c : Char) (digit : c.isDigit = true) : isBlank c = false :=
  @digit_induction (fun c => isBlank c = false) c digit (by decide)

theorem is_alphabetic_of_is_digit (c : Char) (digit : c.isDigit = true) :
    isAlphabetic c = false :=
  @digit_induction (fun c => isAlphabetic c = false) c digit (by decide)

end Text

theorem is_ident_char_of_start (c : Char) (start : isIdentStart c = true) :
    isIdentChar c = true := by
  simp [isIdentChar, start]

theorem is_blank_of_is_ident_char (c : Char) (member : isIdentChar c = true) :
    Text.isBlank c = false := by
  apply eq_false_of_ne_true
  intro blank
  have letter := Text.is_alphabetic_of_is_blank c blank
  simp only [isIdentChar, isIdentStart, letter, Bool.false_or, Bool.or_eq_true,
    beq_iff_eq] at member
  rcases member with (rfl | rfl) | digit
  · exact absurd blank (by decide)
  · exact absurd blank (by decide)
  · rw [Text.is_blank_of_is_digit c digit] at blank
    cases blank

theorem is_ident_start_of_is_digit (c : Char) (digit : c.isDigit = true) :
    isIdentStart c = false := by
  have letter := Text.is_alphabetic_of_is_digit c digit
  simp only [isIdentStart, letter, Bool.false_or, Bool.or_eq_false_iff, beq_eq_false_iff_ne]
  constructor <;> rintro rfl <;> exact absurd digit (by decide)

/-! No mark is part of an identifier. -/

namespace Token

theorem no_quote (c : Char) (member : isIdentChar c = true) : isQuote c = false := by
  simp only [isQuote, Bool.or_eq_false_iff, beq_eq_false_iff_ne]
  constructor <;> rintro rfl <;> exact absurd member (by decide)

theorem no_punctuation (c : Char) (member : isIdentChar c = true) : punctuation? c = none := by
  unfold punctuation?
  split <;> first | rfl | exact absurd member (by decide)

theorem no_pair (c : Char) (member : isIdentChar c = true) : pair? c = none := by
  unfold pair?
  split <;> first | rfl | exact absurd member (by decide)

theorem no_sigil (c : Char) (member : isIdentChar c = true) : sigil? c = none := by
  unfold sigil?
  split <;> first | rfl | exact absurd member (by decide)

theorem read_at_name (c : Char) (rest : List Char) (start : isIdentStart c = true)
    (more : c = '-' → startsWithIdentChar rest = true) :
    readAt c rest = readName (c :: rest) := by
  have member := is_ident_char_of_start c start
  have name : ¬ (c = '-' ∧ startsWithIdentChar rest = false) := by
    rintro ⟨minus, none⟩
    rw [more minus] at none
    cases none
  simp only [readAt, no_quote c member, no_punctuation c member, no_pair c member,
    no_sigil c member, if_neg name, start, if_true, Bool.false_eq_true, if_false]

theorem read_at_minus (rest : List Char) (none : startsWithIdentChar rest = false) :
    readAt '-' rest = (⟨.minus, "-"⟩, rest) := by
  simp [readAt, isQuote, punctuation?, pair?, sigil?, none]

theorem read_at_number (c : Char) (rest : List Char) (digit : c.isDigit = true) :
    readAt c rest = readNumber (c :: rest) := by
  have member : isIdentChar c = true := by simp [isIdentChar, digit]
  have start := is_ident_start_of_is_digit c digit
  have minus : ¬ (c = '-' ∧ startsWithIdentChar rest = false) := by
    rintro ⟨rfl, -⟩
    exact absurd digit (by decide)
  simp only [readAt, no_quote c member, no_punctuation c member, no_pair c member,
    no_sigil c member, if_neg minus, start, digit, if_true, Bool.false_eq_true, if_false]

end Token
end TreeSelect
