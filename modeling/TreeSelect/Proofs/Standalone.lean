import TreeSelect.Proofs.Layout

/-!
Tokens that stand apart. Between two texts with white space in between no token reaches over, so
the tokens are those of the two texts one after the other; the one exception is a quote that the
first text leaves open.

A token that stands by itself is read from its spelling, but for a string with a double quote in
it: a string is always spelled between double quotes, and its spelling is closed too early.
-/

namespace TreeSelect

namespace Token

theorem Piece.closed {piece left : List Char} {token : Token} (taken : Piece piece token left) :
    ¬ token.IsLoneQuote := by
  rintro ⟨quote, mark, rfl⟩
  have spelled : piece = [quote] := by
    rw [← taken.spelled TokenKind.noConfusion]
    simp [spelling]
  have balanced := taken.balanced
  rw [spelled, Text.open_of_unclosed mark List.not_mem_nil] at balanced
  cases balanced

end Token

/-- A quote stays open exactly where it is told by an illegal token of its own. -/
theorem open_quote_eq_none_iff (text : List Char) :
    Text.openQuote text = none ↔ ∀ lexeme ∈ lexemes text, ¬ lexeme.token.IsLoneQuote := by
  induction text using text_induction with
  | blank gap blank =>
    rw [lexemes_blank_alone blank, List.forall_mem_singleton]
    refine iff_of_true (Text.fold_unquoted blank.unquoted) ?_
    rintro ⟨quote, -, same⟩
    cases same
  | token gap piece token left blank taken ih =>
    have follows : Token.Follows left left := .inl rfl
    rw [open_append_piece blank taken, lexemes_token blank (taken.spelt left follows) taken.more,
      List.forall_mem_cons, ih]
    exact ⟨fun closed => ⟨taken.closed, closed⟩, And.right⟩
  | unclosed gap quote rest blank mark absent =>
    rw [Text.open_behind_gap blank mark absent, lexemes_unclosed blank mark absent]
    refine iff_of_false (Option.some_ne_none quote) fun closed => ?_
    exact closed _ List.mem_cons_self ⟨quote, mark, rfl⟩

/-! Texts with white space between them. -/

theorem lexemes_apart {front gap : List Char} (closed : Text.openQuote front = none)
    (blank : Text.Blank gap) (filled : gap ≠ []) (behind : List Char) :
    lexemes (front ++ (gap ++ behind)) = meet (lexemes front) (led true (lexemes behind)) := by
  rw [lexemes_append closed (Token.clear_blank blank filled behind), lexemes_blank blank]
  cases gap with
  | nil => exact absurd rfl filled
  | cons c gap => rfl

theorem tokens_end (text : String) : ∃ inside, tokens text = inside ++ [Token.endOfInput] := by
  obtain ⟨stretches, last, layout⟩ := exists_layout text.toList
  exact ⟨stretches.map Stretch.token, layout.tokens_eq⟩

/-- White space is a boundary of tokens. Behind a text that leaves no quote open it ends the last
token where the end of the text ended it, and what stands behind the white space is read as a text
by itself. -/
theorem tokens_apart {front gap : String} (closed : ∀ token ∈ tokens front, ¬ token.IsLoneQuote)
    (blank : Text.Blank gap.toList) (filled : gap ≠ "") (behind : String) :
    ∃ inside, tokens front = inside ++ [Token.endOfInput] ∧
      tokens (front ++ gap ++ behind) = inside ++ tokens behind := by
  obtain ⟨inside, whole⟩ := tokens_end front
  have balanced : Text.openQuote front.toList = none :=
    (open_quote_eq_none_iff front.toList).mpr fun lexeme member =>
      closed lexeme.token (List.mem_map_of_mem member)
  have some : gap.toList ≠ [] := by simpa using filled
  have front_some : lexemes front.toList ≠ [] := by
    rw [lexemes_eq]
    exact List.cons_ne_nil _ _
  refine ⟨inside, whole, ?_⟩
  calc tokens (front ++ gap ++ behind)
      = (lexemes (front.toList ++ (gap.toList ++ behind.toList))).map Lexeme.token := by
        simp only [tokens, String.toList_append, List.append_assoc]
    _ = (tokens front).dropLast ++ tokens behind := by
        rw [lexemes_apart balanced blank some, meet_tokens front_some, led_tokens]
        rfl
    _ = inside ++ tokens behind := by rw [whole, List.dropLast_concat]

/-- Two colons that would be one token side by side. -/
theorem colons_kept_apart :
    (∀ token ∈ tokens "a:", ¬ token.IsLoneQuote) ∧ Text.Blank "\t".toList ∧ "\t" ≠ "" ∧
      tokens ("a:" ++ "\t" ++ ":b") =
        [⟨.ident, "a"⟩, ⟨.colon, ":"⟩, ⟨.colon, ":"⟩, ⟨.ident, "b"⟩, Token.endOfInput] := by
  have front : tokens "a:" = [⟨.ident, "a"⟩, ⟨.colon, ":"⟩] ++ [Token.endOfInput] := by
    decide +kernel
  have behind : tokens ":b" = [⟨.colon, ":"⟩, ⟨.ident, "b"⟩, Token.endOfInput] := by
    decide +kernel
  have closed : ∀ token ∈ tokens "a:", ¬ token.IsLoneQuote := by
    rintro token member ⟨quote, -, rfl⟩
    simp [front, Token.endOfInput] at member
  have blank : Text.Blank "\t".toList := by decide
  have filled : "\t" ≠ "" := by decide
  obtain ⟨inside, whole, apart⟩ := tokens_apart closed blank filled ":b"
  rw [front] at whole
  rw [behind, ← List.append_cancel_right whole] at apart
  exact ⟨closed, blank, filled, apart⟩

/-! Tokens by themselves. -/

namespace Token

/-- What is read where the token is all of the text. -/
def alone (token : Token) : List Token :=
  if token.isEnd then [token] else [token, endOfInput]

theorem alone_of_more {token : Token} (more : token.isEnd = false) :
    token.alone = [token, endOfInput] := by
  rw [alone, more]
  rfl

/-- Every token that is read is the end token, or a quote that was never closed, or takes a piece
of the text. -/
theorem read_cases {text : List Char} {lexeme : Lexeme} (member : lexeme ∈ lexemes text) :
    lexeme.token = endOfInput ∨ lexeme.token.IsLoneQuote ∨
      ∃ piece left, Piece piece lexeme.token left := by
  induction text using text_induction with
  | blank gap blank =>
    rw [lexemes_blank_alone blank] at member
    exact .inl (congrArg Lexeme.token (List.mem_singleton.mp member))
  | token gap piece token left blank taken ih =>
    rw [lexemes_token blank (taken.spelt left (.inl rfl)) taken.more, List.mem_cons] at member
    rcases member with rfl | later
    · exact .inr (.inr ⟨piece, left, taken⟩)
    · exact ih later
  | unclosed gap quote rest blank mark absent =>
    rw [lexemes_unclosed blank mark absent, List.mem_cons, List.mem_singleton] at member
    rcases member with rfl | rfl
    · exact .inr (.inl ⟨quote, mark, rfl⟩)
    · exact .inl rfl

theorem tokens_of_spelt {piece : String} {token : Token} (spelt : Spelt piece.toList token [])
    (more : token.isEnd = false) : tokens piece = token.alone := by
  have read := lexemes_token (List.forall_mem_nil _) spelt more
  rw [List.nil_append, List.append_nil, lexemes_nil] at read
  rw [tokens, read, alone_of_more more]
  rfl

theorem tokens_of_lone_quote {token : Token} (lone : token.IsLoneQuote) :
    tokens token.spelling = token.alone := by
  obtain ⟨quote, mark, rfl⟩ := lone
  have read := @lexemes_unclosed [] [] quote (List.forall_mem_nil _) mark List.not_mem_nil
  have spelled : spelling ⟨.illegal, quote.toString⟩ = String.ofList [quote] := rfl
  rw [tokens, spelled, String.toList_ofList]
  rw [List.nil_append] at read
  rw [read]
  rfl

/-- A token that is no string takes its spelling off the text. -/
theorem Piece.tokens_of_spelling {piece left : List Char} {token : Token}
    (taken : Piece piece token left) (noString : token.kind ≠ .string) :
    tokens token.spelling = token.alone := by
  have spelt := taken.spelt [] (.inr (clear_of_blank (List.forall_mem_nil _)))
  rw [← taken.spelled noString] at spelt
  exact tokens_of_spelt spelt taken.more

/-- A string is read back from between quotes that are not in it. -/
theorem tokens_of_quoted {quote : Char} {literal : String} (mark : isQuote quote = true)
    (absent : quote ∉ literal.toList) :
    tokens (String.ofList (quote :: (literal.toList ++ [quote]))) = alone ⟨.string, literal⟩ := by
  apply tokens_of_spelt _ rfl
  rw [String.toList_ofList]
  exact spelt_string mark absent []

theorem spelling_of_string (literal : String) :
    spelling ⟨.string, literal⟩ = String.ofList ('"' :: (literal.toList ++ ['"'])) := by
  rw [← String.toList_inj]
  simp [spelling]

/-- Spelled between double quotes, a string ends at the first of them that is in it. -/
theorem tokens_of_closed_early {literal : String} {before after : List Char}
    (split : literal.toList = before ++ '"' :: after) (first : '"' ∉ before) :
    tokens (spelling ⟨.string, literal⟩) =
      ⟨.string, String.ofList before⟩ :: tokens (String.ofList (after ++ ['"'])) := by
  have string := @spelt_string '"' (String.ofList before) (by decide)
    (by rwa [String.toList_ofList]) (after ++ ['"'])
  have read := @lexemes_token [] _ _ _ (List.forall_mem_nil _) string rfl
  rw [String.toList_ofList] at read
  rw [spelling_of_string, split, tokens, tokens, String.toList_ofList, String.toList_ofList]
  simpa using congrArg (List.map Lexeme.token) read

/-- What is read first is shorter than the string. -/
theorem string_not_read_back {literal : String} (quoted : '"' ∈ literal.toList) :
    tokens (spelling ⟨.string, literal⟩) ≠ alone ⟨.string, literal⟩ := by
  obtain ⟨before, after, split, first⟩ := List.eq_append_cons_of_mem quoted
  rw [tokens_of_closed_early split first, alone_of_more rfl]
  intro same
  have shorter : String.ofList before = literal :=
    congrArg Token.literal (List.cons.inj same).1
  have whole : before = before ++ '"' :: after := by
    rw [← split, ← shorter, String.toList_ofList]
  simp at whole

theorem Piece.quote_of_string {piece left : List Char} {token : Token}
    (taken : Piece piece token left) (string : token.kind = .string) :
    ∃ quote, isQuote quote = true ∧ quote ∉ token.literal.toList := by
  cases taken.written with
  | plainly noString _ => exact absurd string noString
  | string mark absent => exact ⟨_, mark, absent⟩
  | unclosed _ _ => cases string

/-- A token is read back from its spelling unless it is a string with a double quote in it. Such a
string was read from between single quotes, and would be read back from between them; but its
spelling has double quotes around it, so that it ends at its own first double quote, and what is
behind that is read as tokens of its own. -/
theorem read_back_iff {text : String} {token : Token} (member : token ∈ tokens text) :
    (tokens token.spelling = token.alone ↔
        ¬ (token.kind = .string ∧ '"' ∈ token.literal.toList)) ∧
      (token.kind = .string → ∃ quote, isQuote quote = true ∧
        tokens (String.ofList (quote :: (token.literal.toList ++ [quote]))) = token.alone) ∧
      (token.kind = .string → ∀ before after, token.literal.toList = before ++ '"' :: after →
        '"' ∉ before → tokens token.spelling =
          ⟨.string, String.ofList before⟩ :: tokens (String.ofList (after ++ ['"']))) := by
  obtain ⟨lexeme, inside, rfl⟩ := List.mem_map.mp member
  by_cases string : lexeme.token.kind = .string
  · obtain ⟨spaced, kind, literal⟩ := lexeme
    obtain rfl : kind = .string := string
    refine ⟨⟨?_, ?_⟩, fun _ => ?_, fun _ before after => tokens_of_closed_early⟩
    · exact fun back found => string_not_read_back found.2 back
    · intro plain
      rw [spelling_of_string]
      exact tokens_of_quoted (by decide) fun quoted => plain ⟨rfl, quoted⟩
    · rcases read_cases inside with ends | ⟨quote, -, lone⟩ | ⟨piece, left, taken⟩
      · cases ends
      · cases lone
      · obtain ⟨quote, mark, absent⟩ := taken.quote_of_string rfl
        exact ⟨quote, mark, tokens_of_quoted mark absent⟩
  · have back : tokens lexeme.token.spelling = lexeme.token.alone := by
      rcases read_cases inside with ends | lone | ⟨piece, left, taken⟩
      · rw [ends]
        decide +kernel
      · exact tokens_of_lone_quote lone
      · exact taken.tokens_of_spelling string
    exact ⟨iff_of_true back fun found => string found.1, fun found => absurd found string,
      fun found => absurd found string⟩

/-- A greeting in single quotes, with a word in double quotes in it. -/
theorem greeting_read_back :
    ⟨.string, "say \"hi\""⟩ ∈ tokens "'say \"hi\"'" ∧
      tokens (spelling ⟨.string, "say \"hi\""⟩) =
        [⟨.string, "say "⟩, ⟨.ident, "hi"⟩, ⟨.string, ""⟩, endOfInput] ∧
      tokens (spelling ⟨.string, "say \"hi\""⟩) ≠ alone ⟨.string, "say \"hi\""⟩ := by
  have member : ⟨.string, "say \"hi\""⟩ ∈ tokens "'say \"hi\"'" := by decide +kernel
  obtain ⟨back, -, early⟩ := read_back_iff member
  have behind : tokens "hi\"\"" = [⟨.ident, "hi"⟩, ⟨.string, ""⟩, endOfInput] := by decide +kernel
  refine ⟨member, ?_, ?_⟩
  · rw [← behind]
    exact early rfl "say ".toList "hi\"".toList (by decide) (by decide)
  · exact fun same => back.mp same ⟨rfl, by decide⟩

end Token

end TreeSelect
