import TreeSelect.Proofs.Spacing
import TreeSelect.Token.Cursor

/-!
Nothing of a text is lost when its tokens are read one at a time. From the first character to the
last the text is white space and the writing of a token in turn, with the white space before the
end token behind them; before each token the cursor knows whether white space was skipped.

A token is written as it is spelled. Two tokens are told by less than they take: a string may have
been written with either quote, and a quote that is never closed has all of the text behind it.
-/

namespace TreeSelect

namespace Token

/-- The token of a quote that is never closed. -/
def IsLoneQuote (token : Token) : Prop :=
  ∃ quote, isQuote quote = true ∧ token = ⟨.illegal, quote.toString⟩

/-- How a token is written where only the rest stands behind it. -/
inductive Written : Token → List Char → List Char → Prop where
  | plainly {token : Token} {rest : List Char} : token.kind ≠ .string → ¬ token.IsLoneQuote →
      Written token token.spelling.toList rest
  | string {literal : String} {quote : Char} {rest : List Char} : isQuote quote = true →
      quote ∉ literal.toList →
      Written ⟨.string, literal⟩ (quote :: (literal.toList ++ [quote])) rest
  | unclosed {quote : Char} {behind : List Char} : isQuote quote = true → quote ∉ behind →
      Written ⟨.illegal, quote.toString⟩ (quote :: behind) []

theorem no_string_of_unquoted {c : Char} {rest : List Char} (plain : isQuote c = false) :
    (readAt c rest).1.kind ≠ .string := by
  induction c, rest using read_at_cases with
  | quoted quote rest mark read =>
      rw [plain] at mark
      cases mark
  | punctuation c rest kind known read =>
      rw [read]
      unfold punctuation? at known
      split at known <;> cases known <;> exact TokenKind.noConfusion
  | pair c rest pair known read =>
      have kinds : pair.together ≠ .string ∧ pair.alone ≠ .string := by
        unfold pair? at known
        split at known <;> cases known <;> decide
      rw [read]
      cases rest with
      | nil => exact kinds.2
      | cons next rest =>
          simp only [readPair]
          split
          · exact kinds.1
          · exact kinds.2
  | sigil c rest kind known read =>
      have noString : kind ≠ .string := by
        unfold sigil? at known
        split at known <;> cases known <;> decide
      rw [read]
      cases rest with
      | nil => exact TokenKind.noConfusion
      | cons first rest =>
          simp only [readSigil]
          split
          · exact noString
          · exact TokenKind.noConfusion
  | minus rest none read => exact read ▸ TokenKind.noConfusion
  | name c rest start identifier read =>
      rw [read]
      simp only [readName]
      split <;> exact TokenKind.noConfusion
  | number c rest digit read => exact read ▸ TokenKind.noConfusion
  | illegal c rest noQuote read => exact read rest ▸ TokenKind.noConfusion

theorem read_at_string {quote : Char} {literal : List Char} (mark : isQuote quote = true)
    (absent : quote ∉ literal) (after : List Char) :
    readAt quote (literal ++ quote :: after) = (⟨.string, String.ofList literal⟩, after) := by
  obtain ⟨c, tail, same, -, read⟩ := @spelt_string quote (String.ofList literal) mark
    (by rwa [String.toList_ofList]) after
  obtain ⟨rfl, rfl⟩ := List.cons.inj same
  rwa [String.toList_ofList, List.append_assoc, List.singleton_append] at read

theorem Piece.written {piece left : List Char} {token : Token} (taken : Piece piece token left) :
    token.Written piece left := by
  obtain ⟨c, tail, rfl, solid, read⟩ := taken.spelt left (.inl rfl)
  cases mark : isQuote c with
  | true =>
      by_cases closed : c ∈ tail ++ left
      · obtain ⟨literal, after, same, absent⟩ := List.eq_append_cons_of_mem closed
        have string := read_at_string mark absent after
        rw [← same, read] at string
        obtain ⟨rfl, rfl⟩ := Prod.mk.inj string
        have quoted : tail = literal ++ [c] := by
          rw [List.append_cons] at same
          exact List.append_cancel_right same
        have written := @Written.string (String.ofList literal) c left mark
          (by rwa [String.toList_ofList])
        rwa [String.toList_ofList, ← quoted] at written
      · -- The piece would leave a quote open.
        have balanced := taken.balanced
        rw [Text.open_of_unclosed mark fun member => closed (List.mem_append_left left member)]
          at balanced
        cases balanced
  | false =>
      have noString : token.kind ≠ .string := by
        have kind := @no_string_of_unquoted c (tail ++ left) mark
        rwa [read] at kind
      have spelled := taken.spelled noString
      have noQuote : ¬ token.IsLoneQuote := by
        rintro ⟨quote, isMark, rfl⟩
        obtain ⟨rfl, -⟩ : quote = c ∧ [] = tail := by simpa [spelling] using spelled
        rw [mark] at isMark
        cases isMark
      exact spelled ▸ .plainly noString noQuote

/-- Only a quote that is never closed may have white space at its end. -/
theorem Written.ends_solid {token : Token} {piece rest : List Char}
    (written : token.Written piece rest) (legible : token.Legible) :
    token.IsLoneQuote ∨ ∀ c ∈ piece.getLast?, Text.isBlank c = false := by
  cases written with
  | plainly noString _ =>
      exact .inr fun c last => legible.solid noString c (List.mem_of_getLast? last)
  | @string literal quote _ mark _ =>
      right
      intro c last
      rw [← List.cons_append, List.getLast?_concat] at last
      exact Option.some.inj last ▸ Text.is_blank_of_is_quote mark
  | @unclosed quote _ mark _ => exact .inl ⟨quote, mark, rfl⟩

theorem legible_read (text : List Char) : (read text).1.Legible := by
  apply lexemes_legible text ⟨startsBlank text, (read text).1⟩
  rw [lexemes_eq]
  exact List.mem_cons_self

end Token

/-- White space and the token behind it; the white space ends where the token begins. -/
structure Stretch where
  gap : List Char
  piece : List Char
  token : Token
  blank : Text.Blank gap
  starts : ∃ c tail, piece = c :: tail ∧ Text.isBlank c = false

namespace Stretch

def text (stretch : Stretch) : List Char := stretch.gap ++ stretch.piece

theorem text_append (stretch : Stretch) (rest : List Char) :
    stretch.text ++ rest = stretch.gap ++ (stretch.piece ++ rest) :=
  List.append_assoc ..

theorem starts_blank (stretch : Stretch) (rest : List Char) :
    Token.startsBlank (stretch.text ++ rest) = !stretch.gap.isEmpty := by
  obtain ⟨c, tail, same, solid⟩ := stretch.starts
  have piece : Token.startsBlank (stretch.piece ++ rest) = false := by rwa [same]
  rw [text_append, starts_blank_append stretch.blank, piece, Bool.or_false]

def joined (stretches : List Stretch) (last : List Char) : List Char :=
  stretches.flatMap text ++ last

theorem joined_cons (first : Stretch) (rest : List Stretch) (last : List Char) :
    joined (first :: rest) last = first.text ++ joined rest last := by
  rw [joined, List.flatMap_cons, List.append_assoc, joined]

end Stretch

/-- Read token by token up to the end token, the text is these stretches and white space. -/
inductive Layout : List Char → List Stretch → List Char → Prop where
  | last {gap : List Char} : Text.Blank gap → Layout gap [] gap
  | next {stretch : Stretch} {rest last : List Char} {stretches : List Stretch} :
      stretch.token.isEnd = false →
      Token.read (stretch.text ++ rest) = (stretch.token, rest) →
      stretch.token.Written stretch.piece rest →
      Layout rest stretches last → Layout (stretch.text ++ rest) (stretch :: stretches) last

theorem exists_layout (text : List Char) : ∃ stretches last, Layout text stretches last := by
  induction text using text_induction with
  | blank gap blank => exact ⟨[], gap, .last blank⟩
  | token gap piece token left blank taken ih =>
      obtain ⟨stretches, last, layout⟩ := ih
      have spelt := taken.spelt left (.inl rfl)
      have ⟨c, tail, same, solid, _⟩ := spelt
      let stretch : Stretch := ⟨gap, piece, token, blank, c, tail, same, solid⟩
      have read : Token.read (stretch.text ++ left) = (token, left) := by
        rw [stretch.text_append]
        exact read_spelt blank spelt
      have whole : Layout (stretch.text ++ left) (stretch :: stretches) last :=
        .next taken.more read taken.written layout
      exact ⟨_, last, stretch.text_append left ▸ whole⟩
  | unclosed gap quote rest blank mark absent =>
      -- The quote leaves nothing, so the white space before the end token is empty.
      let stretch : Stretch := ⟨gap, quote :: rest, ⟨.illegal, quote.toString⟩, blank, quote, rest,
        rfl, Text.is_blank_of_is_quote mark⟩
      have read : Token.read (stretch.text ++ []) = (stretch.token, []) := by
        rw [List.append_nil]
        exact read_unclosed blank mark absent
      have whole : Layout (stretch.text ++ []) [stretch] [] :=
        .next rfl read (.unclosed mark absent) (.last (List.forall_mem_nil _))
      exact ⟨_, [], List.append_nil stretch.text ▸ whole⟩

namespace Layout

theorem joined {text last : List Char} {stretches : List Stretch}
    (layout : Layout text stretches last) : text = Stretch.joined stretches last := by
  induction layout with
  | last blank => rfl
  | next _ _ _ _ ih => rw [Stretch.joined_cons, ← ih]

/-- What is read one at a time is what is read all at once. -/
theorem tokens_eq {text last : List Char} {stretches : List Stretch}
    (layout : Layout text stretches last) :
    (lexemes text).map Lexeme.token = stretches.map Stretch.token ++ [Token.endOfInput] := by
  induction layout with
  | last blank => rw [lexemes_blank_alone blank, List.map_singleton, List.map_nil, List.nil_append]
  | next more read _ _ ih =>
      rw [lexemes_eq, read, more]
      simp only [Bool.false_eq_true, if_false, List.map_cons, ih, List.cons_append]

theorem head {text last : List Char} {first : Stretch} {stretches : List Stretch}
    (layout : Layout text (first :: stretches) last) :
    ∃ rest, text = first.text ++ rest ∧ Token.read text = (first.token, rest) ∧
      first.token.isEnd = false ∧ first.token.Written first.piece rest ∧
      Layout rest stretches last := by
  cases layout with
  | next more read written behind => exact ⟨_, rfl, read, more, written, behind⟩

theorem read_last {text last : List Char} (layout : Layout text [] last) :
    text = last ∧ Text.Blank last ∧ Token.read text = (Token.endOfInput, []) := by
  cases layout with
  | last blank =>
      have read := read_blank blank []
      rw [List.append_nil] at read
      exact ⟨rfl, blank, read⟩

end Layout

/-! The cursor, token by token. -/

/-- The cursor behind so many tokens. -/
def Cursor.after (cursor : Cursor) : Nat → Cursor
  | 0 => cursor
  | count + 1 => cursor.read.2.after count

theorem Layout.after {cursor : Cursor} {before behind : List Stretch} {last : List Char}
    (layout : Layout cursor.rest (before ++ behind) last) :
    Layout (cursor.after before.length).rest behind last := by
  induction before generalizing cursor with
  | nil => exact layout
  | cons first before ih =>
      -- The cursor stands where the layout goes on: reading takes the first stretch off both.
      obtain ⟨rest, -, read, -, -, there⟩ := layout.head
      have left : cursor.read.2.rest = rest := congrArg Prod.snd read
      exact @ih cursor.read.2 (left ▸ there)

/-- Before a token the cursor tells the white space that stands there. -/
theorem Layout.spaced_iff {cursor : Cursor} {first : Stretch} {stretches : List Stretch}
    {last : List Char} (layout : Layout cursor.rest (first :: stretches) last) :
    cursor.spaced = true ↔ first.gap ≠ [] := by
  obtain ⟨rest, whole, -⟩ := layout.head
  rw [Cursor.spaced, whole, first.starts_blank]
  simp

/-! Main result. -/

/-- Every text is white space and a token in turn, each token written as it is spelled but for
strings and for a quote that is never closed; the white space ends only where a token or the text
does. Handed out one at a time, the tokens come in this order, and whether white space stands
before the next one is known. -/
theorem text_recovered (text : String) :
    ∃ (stretches : List Stretch) (last : List Char),
      text.toList = Stretch.joined stretches last ∧ Text.Blank last ∧
      tokens text = stretches.map Stretch.token ++ [Token.endOfInput] ∧
      (∀ before here behind, stretches = before ++ here :: behind →
        let cursor := (Cursor.ofText text).after before.length
        (cursor.spaced = true ↔ here.gap ≠ []) ∧ cursor.read.1 = here.token ∧
          here.token.isEnd = false ∧
          here.token.Written here.piece (Stretch.joined behind last) ∧
          (here.token.IsLoneQuote ∨ ∀ c ∈ here.piece.getLast?, Text.isBlank c = false)) ∧
      let cursor := (Cursor.ofText text).after stretches.length
      (cursor.spaced = true ↔ last ≠ []) ∧ cursor.read.1 = Token.endOfInput := by
  obtain ⟨stretches, last, layout⟩ := exists_layout text.toList
  have finish : Layout ((Cursor.ofText text).after stretches.length).rest [] last :=
    @Layout.after (.ofText text) stretches [] last ((List.append_nil stretches).symm ▸ layout)
  obtain ⟨rest, blank, ends⟩ := finish.read_last
  refine ⟨stretches, last, layout.joined, blank, layout.tokens_eq, ?_, ?_, ?_⟩
  · rintro before here behind rfl cursor
    have there : Layout cursor.rest (here :: behind) last :=
      @Layout.after (.ofText text) before (here :: behind) last layout
    obtain ⟨rest, whole, read, more, written, later⟩ := there.head
    have legible : here.token.Legible := by
      have legible := Token.legible_read cursor.rest
      rwa [read] at legible
    exact ⟨there.spaced_iff, congrArg Prod.fst read, more, later.joined ▸ written,
      written.ends_solid legible⟩
  · have behind := starts_blank_append blank []
    rw [List.append_nil] at behind
    rw [Cursor.spaced, rest, behind]
    simp [Token.startsBlank]
  · exact congrArg Prod.fst ends

end TreeSelect
