import TreeSelect.Proofs.Recognition
import TreeSelect.Proofs.Scanning

/-!
Texts cut between their tokens. A token takes a piece of the text, and of what stands behind
the piece it sees one character at most; so it is the same token before every text that begins
alike, and before every text that no token reaches into. A quote that is never closed takes
the rest of the text and is the one exception. From this come the laws of texts put together:
white space in front shows in one flag only, and the tokens of a text stay what they are
where white space, a comma or a combinator follows.
-/

namespace TreeSelect

namespace Text

def Blank (text : List Char) : Prop := ∀ c ∈ text, isBlank c = true

instance (text : List Char) : Decidable (Blank text) :=
  List.decidableBAll (fun c => isBlank c = true) text

/-- The quote that is open after one more character. -/
def quoteAfter : Option Char → Char → Option Char
  | none, c => if Token.isQuote c then some c else none
  | some quote, c => if c = quote then none else some quote

/-- The quote that was opened last and is not closed yet. -/
def openQuote (text : List Char) : Option Char := text.foldl quoteAfter none

/-- The place between the two texts lies in a quoted string: it was opened before and is closed
behind. -/
def InsideString (before after : List Char) : Prop :=
  ∃ quote, openQuote before = some quote ∧ quote ∈ after

theorem fold_unquoted {text : List Char} (plain : ∀ c ∈ text, Token.isQuote c = false) :
    text.foldl quoteAfter none = none := by
  induction text with
  | nil => rfl
  | cons c text ih =>
      have here := plain c List.mem_cons_self
      rw [List.foldl_cons, quoteAfter, here]
      exact ih fun d member => plain d (List.mem_cons_of_mem c member)

theorem fold_quoted {quote : Char} {text : List Char} (absent : quote ∉ text) :
    text.foldl quoteAfter (some quote) = some quote := by
  induction text with
  | nil => rfl
  | cons c text ih =>
      rw [List.mem_cons, not_or] at absent
      rw [List.foldl_cons, quoteAfter, if_neg fun same => absent.1 same.symm]
      exact ih absent.2

theorem quote_of_fold (text : List Char) {state : Option Char}
    (known : ∀ quote ∈ state, Token.isQuote quote = true) :
    ∀ quote ∈ text.foldl quoteAfter state, Token.isQuote quote = true := by
  induction text generalizing state with
  | nil => exact known
  | cons c text ih =>
      refine ih fun quote opened => ?_
      unfold quoteAfter at opened
      split at opened <;> split at opened <;> cases opened
      · assumption
      · exact known quote rfl

theorem quote_of_open {text : List Char} {quote : Char} (opened : openQuote text = some quote) :
    Token.isQuote quote = true :=
  @quote_of_fold text none nofun quote opened

theorem open_append {front : List Char} (closed : openQuote front = none) (rest : List Char) :
    openQuote (front ++ rest) = openQuote rest := by
  rw [openQuote, List.foldl_append]
  exact congrArg (List.foldl quoteAfter · rest) closed

theorem open_of_unclosed {quote : Char} {rest : List Char} (mark : Token.isQuote quote = true)
    (absent : quote ∉ rest) : openQuote (quote :: rest) = some quote := by
  rw [openQuote, List.foldl_cons, quoteAfter, if_pos mark, fold_quoted absent]

theorem is_quote_of_is_blank (c : Char) (blank : isBlank c = true) : Token.isQuote c = false := by
  simp only [Token.isQuote, Bool.or_eq_false_iff, beq_eq_false_iff_ne]
  constructor <;> rintro rfl <;> exact absurd blank (by decide)

theorem is_blank_of_is_quote {c : Char} (mark : Token.isQuote c = true) : isBlank c = false := by
  apply eq_false_of_ne_true
  intro blank
  rw [is_quote_of_is_blank c blank] at mark
  cases mark

theorem Blank.unquoted {text : List Char} (blank : Blank text) :
    ∀ c ∈ text, Token.isQuote c = false :=
  fun c member => is_quote_of_is_blank c (blank c member)

theorem open_behind_gap {gap rest : List Char} {quote : Char} (blank : Blank gap)
    (mark : Token.isQuote quote = true) (absent : quote ∉ rest) :
    openQuote (gap ++ quote :: rest) = some quote := by
  rw [open_append (fold_unquoted blank.unquoted), open_of_unclosed mark absent]

/-- White space does not close a quote. -/
theorem Blank.not_mem {front gap : List Char} {quote : Char} (blank : Blank gap)
    (opened : openQuote front = some quote) : quote ∉ gap := by
  intro member
  have mark := quote_of_open opened
  rw [blank.unquoted quote member] at mark
  cases mark

end Text

namespace Token

/-- Nothing at the head of the text is taken into the token before it. -/
def Clear (rest : List Char) : Prop :=
  ∀ c ∈ rest.head?, isIdentChar c = false ∧ c ≠ '(' ∧ c ≠ '=' ∧ c ≠ ':'

theorem clear_cons {c : Char} {rest : List Char}
    (mark : isIdentChar c = false ∧ c ≠ '(' ∧ c ≠ '=' ∧ c ≠ ':') : Clear (c :: rest) := by
  intro d head
  rwa [← Option.some.inj head]

theorem clear_of_blank {gap : List Char} (blank : Text.Blank gap) : Clear gap := by
  intro c head
  have here := blank c (List.mem_of_mem_head? head)
  refine ⟨?_, ?_, ?_, ?_⟩
  · apply eq_false_of_ne_true
    intro member
    rw [is_blank_of_is_ident_char c member] at here
    cases here
  all_goals rintro rfl; exact absurd here (by decide)

theorem clear_blank {gap : List Char} (blank : Text.Blank gap) (filled : gap ≠ [])
    (rest : List Char) : Clear (gap ++ rest) := by
  cases gap with
  | nil => exact absurd rfl filled
  | cons c gap => exact clear_cons (clear_of_blank blank c rfl)

/-- A token that ends where the one text begins ends where the other does, too. -/
def Follows (left rest : List Char) : Prop := rest.head? = left.head? ∨ Clear rest

theorem follows_append {left rest : List Char} (clear : left = [] → Clear rest) :
    Follows left (left ++ rest) := by
  cases left with
  | nil => exact .inr (clear rfl)
  | cons c left => exact .inl rfl

/-- What a token takes of a text, when `left` is what it leaves. A string is spelled with
quotes of its own, so of its spelling only the length is known. -/
structure Piece (piece : List Char) (token : Token) (left : List Char) : Prop where
  more : token.isEnd = false
  length : piece.length = token.spelling.toList.length
  spelled : token.kind ≠ .string → token.spelling.toList = piece
  balanced : Text.openQuote piece = none
  spelt : ∀ rest, Follows left rest → Spelt piece token rest

/-- A token and what it leaves are all of the text. -/
def Taken (text : List Char) (reading : Token × List Char) : Prop :=
  ∃ piece, text = piece ++ reading.2 ∧ Piece piece reading.1 reading.2

theorem Follows.stop {keep : Char → Bool} {left rest : List Char} (follows : Follows left rest)
    (stops : ∀ c ∈ left.head?, keep c = false)
    (mark : ∀ c, isIdentChar c = false → keep c = false) : ∀ c ∈ rest.head?, keep c = false := by
  rcases follows with same | clear
  · rwa [same]
  · exact fun c head => mark c (clear c head).1

/-! One kind of token after the other. -/

theorem taken_quoted {quote : Char} (mark : isQuote quote = true) (rest : List Char) :
    Taken (quote :: rest) (readQuoted quote rest) ∨
      quote ∉ rest ∧ readQuoted quote rest = (⟨.illegal, quote.toString⟩, []) := by
  have whole := List.takeWhile_append_dropWhile (p := (· != quote)) (l := rest)
  have absent : quote ∉ rest.takeWhile (· != quote) := by
    intro member
    simpa using List.all_eq_true.mp List.all_takeWhile quote member
  unfold readQuoted
  split
  · next none =>
    rw [none, List.append_nil] at whole
    exact .inr ⟨whole ▸ absent, rfl⟩
  · next stop after found =>
    have closes := head_drop_while (· != quote) rest stop (by rw [found]; rfl)
    obtain rfl : stop = quote := by simpa using closes
    refine .inl ⟨stop :: (rest.takeWhile (· != stop) ++ [stop]), ?_, rfl, ?_, absurd rfl, ?_, ?_⟩
    · rw [List.cons_append, List.append_assoc, List.singleton_append, ← found, whole]
    · simp [spelling]
    · rw [Text.openQuote, List.foldl_cons, Text.quoteAfter, if_pos mark, List.foldl_append,
        Text.fold_quoted absent]
      simp [Text.quoteAfter]
    · intro behind _
      have string := @spelt_string stop (String.ofList (rest.takeWhile (· != stop))) mark
        (by rwa [String.toList_ofList]) behind
      rwa [String.toList_ofList] at string

theorem read_at_unclosed {quote : Char} {rest : List Char} (mark : isQuote quote = true)
    (absent : quote ∉ rest) : readAt quote rest = (⟨.illegal, quote.toString⟩, []) := by
  have inside : ∀ c ∈ rest, (c != quote) = true := by
    intro c member
    rw [bne_iff_ne]
    rintro rfl
    exact absent member
  have none := @List.dropWhile_append_of_pos _ (· != quote) rest [] inside
  rw [List.append_nil] at none
  simp only [readAt, mark, if_true, readQuoted, none, List.dropWhile_nil]

theorem taken_plain {piece left : List Char} {token : Token}
    (spelled : token.isEnd = false ∧ token.spelling.toList = piece)
    (plain : ∀ c ∈ piece, isQuote c = false)
    (spelt : ∀ rest, Follows left rest → Spelt piece token rest) :
    Taken (piece ++ left) (token, left) :=
  ⟨piece, rfl, spelled.1, congrArg List.length spelled.2.symm, fun _ => spelled.2,
    Text.fold_unquoted plain, spelt⟩

theorem taken_punctuation {c : Char} {kind : TokenKind} (known : punctuation? c = some kind)
    (rest : List Char) : Taken (c :: rest) (⟨kind, c.toString⟩, rest) := by
  refine @taken_plain [c] rest _ ?_ ?_ fun behind _ => spelt_punctuation known behind
  · unfold punctuation? at known
    split at known <;> cases known <;> exact ⟨rfl, rfl⟩
  · rw [List.forall_mem_singleton]
    unfold punctuation? at known
    split at known <;> first | decide | cases known

/-- The second character of a pair is one that no text which is clear of a token begins with. -/
theorem pair_marks {first : Char} {pair : Pair} (known : pair? first = some pair) :
    (pair.second = ':' ∨ pair.second = '=') ∧
      ∀ kind, kind = pair.together ∨ kind = pair.alone → ∀ literal,
        isEnd ⟨kind, literal⟩ = false ∧ spelling ⟨kind, literal⟩ = literal := by
  unfold pair? at known
  split at known <;> cases known <;> refine ⟨by decide, ?_⟩ <;> rintro kind (rfl | rfl) literal <;>
    exact ⟨rfl, rfl⟩

theorem Follows.other {mark : Char} {left rest : List Char} (follows : Follows left rest)
    (known : mark = ':' ∨ mark = '=' ∨ mark = '(') (other : left.head? ≠ some mark) :
    rest.head? ≠ some mark := by
  rcases follows with same | clear
  · rwa [same]
  · intro head
    obtain ⟨-, noCall, noEquals, noColon⟩ := clear mark head
    rcases known with rfl | rfl | rfl
    · exact noColon rfl
    · exact noEquals rfl
    · exact noCall rfl

theorem taken_pair {first : Char} {pair : Pair} (known : pair? first = some pair)
    (rest : List Char) : Taken (first :: rest) (readPair first pair rest) := by
  obtain ⟨plain, -, -⟩ := pair_plain known
  obtain ⟨second, spelled⟩ := pair_marks known
  have alone {left : List Char} (other : left.head? ≠ some pair.second) :
      Taken (first :: left) (⟨pair.alone, first.toString⟩, left) := by
    refine @taken_plain [first] left _ (by simp [spelled pair.alone]) (by simpa using plain)
      fun behind follows => spelt_alone known ?_
    exact follows.other (second.imp_right .inl) other
  cases rest with
  | nil => exact alone (by simp)
  | cons next after =>
    simp only [readPair]
    split
    · next same =>
      subst same
      refine @taken_plain [first, pair.second] after _ (by simp [spelled pair.together]) ?_
        fun behind _ => spelt_together known behind
      rcases second with mark | mark <;> simp [plain, mark] <;> decide
    · next other => exact alone (by simpa using other)

theorem spelt_lone_sigil {mark : Char} {kind : TokenKind} (known : sigil? mark = some kind)
    {rest : List Char} (none : ∀ c ∈ rest.head?, Text.isAlphabetic c = false) :
    Spelt [mark] ⟨.illegal, mark.toString⟩ rest := by
  have dispatch : Text.isBlank mark = false ∧ readAt mark rest = readSigil mark kind rest := by
    unfold sigil? at known
    split at known <;> cases known <;> exact ⟨by decide, rfl⟩
  refine ⟨mark, [], rfl, dispatch.1, dispatch.2.trans ?_⟩
  cases rest with
  | nil => rfl
  | cons first rest => simp [readSigil, none first rfl]

theorem ident_chars_plain {name : List Char} (member : ∀ c ∈ name, isIdentChar c = true) :
    ∀ c ∈ name, isQuote c = false :=
  fun c here => no_quote c (member c here)

theorem taken_sigil {mark : Char} {kind : TokenKind} (known : sigil? mark = some kind)
    (rest : List Char) : Taken (mark :: rest) (readSigil mark kind rest) := by
  have plain : isQuote mark = false ∧ ∀ name,
      isEnd ⟨kind, name⟩ = false ∧ spelling ⟨kind, name⟩ = mark.toString ++ name := by
    unfold sigil? at known
    split at known <;> cases known <;> exact ⟨by decide, fun _ => ⟨rfl, rfl⟩⟩
  have lone {left : List Char} (none : ∀ c ∈ left.head?, Text.isAlphabetic c = false) :
      Taken (mark :: left) (⟨.illegal, mark.toString⟩, left) := by
    refine @taken_plain [mark] left _ (by simp [isEnd, spelling]) (by simpa using plain.1)
      fun behind follows => spelt_lone_sigil known (follows.stop none fun c other => ?_)
    apply eq_false_of_ne_true
    intro letter
    rw [ident_char_of_alphabetic letter] at other
    cases other
  cases rest with
  | nil => exact lone (by simp)
  | cons first others =>
    simp only [readSigil]
    split
    · next letter =>
      have member := List.all_eq_true.mp
        (@List.all_takeWhile _ isIdentChar (first :: others))
      have start : ∀ c ∈ ((first :: others).takeWhile isIdentChar).head?,
          Text.isAlphabetic c = true := by
        simp [ident_char_of_alphabetic letter, letter]
      have filled : (first :: others).takeWhile isIdentChar ≠ [] := by
        simp [ident_char_of_alphabetic letter]
      have stops := head_drop_while isIdentChar (first :: others)
      have taken := @taken_plain (mark :: (first :: others).takeWhile isIdentChar)
        ((first :: others).dropWhile isIdentChar)
        ⟨kind, String.ofList ((first :: others).takeWhile isIdentChar)⟩
        (by simp [plain.2]) (List.forall_mem_cons.mpr ⟨plain.1, ident_chars_plain member⟩)
        fun behind follows =>
          spelt_sigil known start filled member (follows.stop stops fun _ => id)
      rwa [List.cons_append, List.takeWhile_append_dropWhile] at taken
    · next other => exact lone (by simpa using other)

theorem taken_name {text : List Char}
    (identifier : isIdentifier (String.ofList (text.takeWhile isIdentChar)) = true) :
    Taken text (readName text) := by
  have whole := List.takeWhile_append_dropWhile (p := isIdentChar) (l := text)
  have member := List.all_eq_true.mp (@List.all_takeWhile _ isIdentChar text)
  have stops := head_drop_while isIdentChar text
  simp only [readName]
  split
  · next after found =>
    have taken := @taken_plain (text.takeWhile isIdentChar ++ ['(']) after
      ⟨.function, String.ofList (text.takeWhile isIdentChar)⟩ (by simp [isEnd, spelling])
      (List.forall_mem_append.mpr
        ⟨ident_chars_plain member, List.forall_mem_singleton.mpr (by decide)⟩)
      fun behind _ => by simpa using spelt_function identifier behind
    rwa [List.append_assoc, List.singleton_append, ← found, whole] at taken
  · next noCall =>
    have other : (text.dropWhile isIdentChar).head? ≠ some '(' := by
      cases left : text.dropWhile isIdentChar with
      | nil => simp
      | cons c after =>
        rw [List.head?_cons]
        intro call
        exact noCall after (Option.some.inj call ▸ left)
    have taken := @taken_plain (text.takeWhile isIdentChar) (text.dropWhile isIdentChar)
      ⟨.ident, String.ofList (text.takeWhile isIdentChar)⟩ (by simp [isEnd, spelling])
      (ident_chars_plain member) fun behind follows => by
        have ends := (starts_with_ident_char_iff behind).mpr (follows.stop stops fun _ => id)
        simpa using spelt_ident identifier
          ⟨ends, follows.other (.inr (.inr rfl)) other⟩
    rwa [whole] at taken

theorem taken_number {c : Char} (digit : c.isDigit = true) (rest : List Char) :
    Taken (c :: rest) (readNumber (c :: rest)) := by
  have whole := List.takeWhile_append_dropWhile (p := Char.isDigit) (l := c :: rest)
  have digits := List.all_eq_true.mp (@List.all_takeWhile _ Char.isDigit (c :: rest))
  have first : (c :: rest).takeWhile Char.isDigit = c :: rest.takeWhile Char.isDigit := by
    simp [digit]
  have taken := @taken_plain ((c :: rest).takeWhile Char.isDigit)
    ((c :: rest).dropWhile Char.isDigit)
    ⟨.number, String.ofList ((c :: rest).takeWhile Char.isDigit)⟩ (by simp [isEnd, spelling])
    (ident_chars_plain fun d member => by simp [isIdentChar, digits d member])
    fun behind follows => by
      have stops := follows.stop (head_drop_while Char.isDigit _) fun d other => by
        rw [isIdentChar, Bool.or_eq_false_iff] at other
        exact other.2
      obtain ⟨taken, left⟩ := span_stopped digits stops
      refine ⟨c, rest.takeWhile Char.isDigit, first, Text.is_blank_of_is_digit c digit, ?_⟩
      rw [read_at_number c _ digit, ← List.cons_append, ← first, readNumber, taken, left]
  rwa [whole] at taken

/-- Every token takes a piece, but for a quote that is never closed. -/
theorem taken_at (c : Char) (rest : List Char) (solid : Text.isBlank c = false) :
    Taken (c :: rest) (readAt c rest) ∨
      isQuote c = true ∧ c ∉ rest ∧ readAt c rest = (⟨.illegal, c.toString⟩, []) := by
  induction c, rest using read_at_cases with
  | quoted quote rest mark read =>
      rw [read]
      exact (taken_quoted mark rest).imp_right fun unclosed => ⟨mark, unclosed⟩
  | punctuation c rest kind known read => exact .inl (read ▸ taken_punctuation known rest)
  | pair c rest pair known read => exact .inl (read ▸ taken_pair known rest)
  | sigil c rest kind known read => exact .inl (read ▸ taken_sigil known rest)
  | minus rest none read =>
      left
      rw [read]
      refine @taken_plain ['-'] rest ⟨.minus, "-"⟩ ⟨rfl, rfl⟩
        (List.forall_mem_singleton.mpr (by decide)) fun behind follows => ?_
      have stops := follows.stop ((starts_with_ident_char_iff rest).mp none) fun _ => id
      exact ⟨'-', [], rfl, solid, read_at_minus behind ((starts_with_ident_char_iff _).mpr stops)⟩
  | name c rest start identifier read => exact .inl (read ▸ taken_name identifier)
  | number c rest digit read => exact .inl (read ▸ taken_number digit rest)
  | illegal c rest plain read =>
      left
      rw [read]
      exact @taken_plain [c] rest ⟨.illegal, c.toString⟩ (by simp [isEnd, spelling])
        (by simpa using plain) fun behind _ => ⟨c, [], rfl, solid, read behind⟩

end Token

/-! Texts from token to token. -/

/-- The first lexeme with white space before it, or as it stands. -/
def led (spaced : Bool) : List Lexeme → List Lexeme
  | [] => []
  | first :: rest => ⟨spaced || first.spaced, first.token⟩ :: rest

theorem led_false (list : List Lexeme) : led false list = list := by
  cases list <;> simp [led]

theorem led_led (here there : Bool) (list : List Lexeme) :
    led here (led there list) = led (here || there) list := by
  cases list <;> simp [led, Bool.or_assoc]

theorem led_tokens (spaced : Bool) (list : List Lexeme) :
    (led spaced list).map Lexeme.token = list.map Lexeme.token := by
  cases list <;> rfl

theorem lexemes_nil : lexemes [] = [⟨false, Token.endOfInput⟩] := by
  rw [lexemes]
  rfl

theorem lexemes_eq (text : List Char) :
    lexemes text = ⟨Token.startsBlank text, (Token.read text).1⟩ ::
      if (Token.read text).1.isEnd then [] else lexemes (Token.read text).2 := by
  rw [lexemes]
  cases ends : (Token.read text).1.isEnd with
  | false => exact dif_pos ends
  | true => exact dif_neg (by simp [Lexeme.read, ends])

theorem starts_blank_append {gap : List Char} (blank : Text.Blank gap) (rest : List Char) :
    Token.startsBlank (gap ++ rest) = (!gap.isEmpty || Token.startsBlank rest) := by
  cases gap with
  | nil => rfl
  | cons c gap => exact blank c List.mem_cons_self

theorem read_blank {gap : List Char} (blank : Text.Blank gap) (rest : List Char) :
    Token.read (gap ++ rest) = Token.read rest := by
  rw [Token.read, List.dropWhile_append_of_pos blank, Token.read]

theorem lexemes_blank {gap : List Char} (blank : Text.Blank gap) (rest : List Char) :
    lexemes (gap ++ rest) = led (!gap.isEmpty) (lexemes rest) := by
  rw [lexemes_eq, lexemes_eq rest, read_blank blank, starts_blank_append blank]
  split <;> rfl

theorem lexemes_blank_alone {gap : List Char} (blank : Text.Blank gap) :
    lexemes gap = [⟨!gap.isEmpty, Token.endOfInput⟩] := by
  have alone := lexemes_blank blank []
  rwa [List.append_nil, lexemes_nil, led, Bool.or_false] at alone

theorem lexemes_token {gap piece rest : List Char} {token : Token} (blank : Text.Blank gap)
    (spelt : Token.Spelt piece token rest) (more : token.isEnd = false) :
    lexemes (gap ++ (piece ++ rest)) = ⟨!gap.isEmpty, token⟩ :: lexemes rest := by
  have alone : lexemes (piece ++ rest) = ⟨false, token⟩ :: lexemes rest :=
    (spelt.scans more false).lexemes_eq
  rw [lexemes_blank blank, alone, led, Bool.or_false]

theorem read_spelt {gap piece rest : List Char} {token : Token} (blank : Text.Blank gap)
    (spelt : Token.Spelt piece token rest) :
    Token.read (gap ++ (piece ++ rest)) = (token, rest) := by
  obtain ⟨c, tail, rfl, solid, taken⟩ := spelt
  rw [read_blank blank]
  simp [Token.read, solid, taken]

theorem read_unclosed {gap rest : List Char} {quote : Char} (blank : Text.Blank gap)
    (mark : Token.isQuote quote = true) (absent : quote ∉ rest) :
    Token.read (gap ++ quote :: rest) = (⟨.illegal, quote.toString⟩, []) := by
  rw [read_blank blank]
  simp [Token.read, Text.is_blank_of_is_quote mark, Token.read_at_unclosed mark absent]

theorem lexemes_unclosed {gap rest : List Char} {quote : Char} (blank : Text.Blank gap)
    (mark : Token.isQuote quote = true) (absent : quote ∉ rest) :
    lexemes (gap ++ quote :: rest) =
      [⟨!gap.isEmpty, ⟨.illegal, quote.toString⟩⟩, ⟨false, Token.endOfInput⟩] := by
  rw [lexemes_eq, read_unclosed blank mark absent, starts_blank_append blank]
  simp [Token.isEnd, Token.startsBlank, Text.is_blank_of_is_quote mark, lexemes_nil]

/-- A text is white space only, or begins with a token behind white space, or with a quote that
takes the rest. -/
theorem text_induction {motive : List Char → Prop}
    (blank : ∀ gap, Text.Blank gap → motive gap)
    (token : ∀ gap piece token left, Text.Blank gap → Token.Piece piece token left →
      motive left → motive (gap ++ (piece ++ left)))
    (unclosed : ∀ gap quote rest, Text.Blank gap → Token.isQuote quote = true → quote ∉ rest →
      motive (gap ++ quote :: rest)) (text : List Char) : motive text := by
  have whole := List.takeWhile_append_dropWhile (p := Text.isBlank) (l := text)
  have space : Text.Blank (text.takeWhile Text.isBlank) := List.all_eq_true.mp List.all_takeWhile
  cases found : text.dropWhile Text.isBlank with
  | nil =>
    rw [found, List.append_nil] at whole
    exact whole ▸ blank _ space
  | cons c rest =>
    have solid := Token.head_drop_while Text.isBlank text c (by rw [found]; rfl)
    rw [found] at whole
    rcases Token.taken_at c rest solid with ⟨piece, pieces, taken⟩ | ⟨mark, absent, -⟩
    · -- What a token leaves is shorter than the text, since it takes the character at its head.
      have shorter : (Token.readAt c rest).2.length < text.length := by
        have left := Token.read_at_length c rest
        have sizes := congrArg List.length whole
        rw [List.length_append, List.length_cons] at sizes
        omega
      have behind := text_induction blank token unclosed (Token.readAt c rest).2
      rw [← whole, pieces]
      exact token _ piece _ _ space taken behind
    · rw [← whole]
      exact unclosed _ c rest space mark absent
termination_by text.length
decreasing_by exact shorter

/-- The lexemes of two texts put together: the end token of the first gives way, and only the
white space before it stays. -/
def meet : List Lexeme → List Lexeme → List Lexeme
  | [], there => there
  | [last], there => led last.spaced there
  | first :: second :: here, there => first :: meet (second :: here) there

theorem meet_concat (inside : List Lexeme) (last : Lexeme) (there : List Lexeme) :
    meet (inside ++ [last]) there = inside ++ led last.spaced there := by
  induction inside with
  | nil => rfl
  | cons first inside ih =>
    cases inside with
    | nil => rfl
    | cons second inside => exact congrArg (first :: ·) ih

theorem meet_lexemes (first : Lexeme) (text : List Char) (there : List Lexeme) :
    meet (first :: lexemes text) there = first :: meet (lexemes text) there := by
  obtain ⟨inside, last, same, -⟩ := lexemes_end text
  rw [same, ← List.cons_append, meet_concat, meet_concat, List.cons_append]

theorem meet_tokens {here : List Lexeme} (filled : here ≠ []) (there : List Lexeme) :
    (meet here there).map Lexeme.token =
      (here.map Lexeme.token).dropLast ++ there.map Lexeme.token := by
  obtain ⟨inside, last, rfl⟩ := List.eq_nil_or_concat here |>.resolve_left filled
  simp [meet_concat, led_tokens]

theorem open_append_piece {gap piece : List Char} {token : Token} {left : List Char}
    (blank : Text.Blank gap) (taken : Token.Piece piece token left) (rest : List Char) :
    Text.openQuote (gap ++ (piece ++ rest)) = Text.openQuote rest := by
  rw [Text.open_append (Text.fold_unquoted blank.unquoted), Text.open_append taken.balanced]

/-- The last token of the front ends where it did, since nothing clear is taken into it. -/
theorem lexemes_append {front rest : List Char} (closed : Text.openQuote front = none)
    (clear : Token.Clear rest) : lexemes (front ++ rest) = meet (lexemes front) (lexemes rest) := by
  induction front using text_induction with
  | blank gap blank => rw [lexemes_blank_alone blank, lexemes_blank blank, meet]
  | token gap piece token left blank taken ih =>
    rw [open_append_piece blank taken] at closed
    have follows : Token.Follows left (left ++ rest) := Token.follows_append fun _ => clear
    rw [List.append_assoc, List.append_assoc, lexemes_token blank (taken.spelt _ follows) taken.more,
      lexemes_token blank (taken.spelt left (.inl rfl)) taken.more, meet_lexemes, ih closed]
  | unclosed gap quote others blank mark absent =>
    rw [Text.open_behind_gap blank mark absent] at closed
    cases closed

/-- Read with the same token in front, a text is cut behind the same piece: the length of the
piece is the length of the spelling. -/
theorem Token.Piece.spelt_before {piece left : List Char} {token : Token}
    (taken : Token.Piece piece token left) {rest : List Char}
    (same : (Token.read (piece ++ rest)).1 = token) : Token.Spelt piece token rest := by
  obtain ⟨c, tail, rfl, solid, -⟩ := taken.spelt left (.inl rfl)
  have here : Token.read (c :: tail ++ rest) = Token.readAt c (tail ++ rest) := by
    simp [Token.read, solid]
  rw [here] at same
  refine ⟨c, tail, rfl, solid, Prod.ext same ?_⟩
  rcases Token.taken_at c (tail ++ rest) solid with ⟨piece, pieces, again⟩ | ⟨mark, -, unclosed⟩
  · rw [← List.cons_append] at pieces
    have sizes : (c :: tail).length = piece.length := by
      rw [taken.length, again.length, same]
    exact (List.append_inj pieces sizes).2.symm
  · -- The piece would be the lone quote, which leaves a quote open.
    rw [unclosed] at same
    subst same
    have lone : tail = [] := by simpa [Token.spelling] using taken.length
    have balanced := taken.balanced
    rw [lone, Text.open_of_unclosed mark (by simp)] at balanced
    cases balanced

/-- Cut between two of its tokens, a text has the lexemes of its two parts. -/
theorem lexemes_cut {front rest : List Char} (closed : Text.openQuote front = none)
    (cut : (lexemes (front ++ rest)).map Lexeme.token =
      (meet (lexemes front) (lexemes rest)).map Lexeme.token) :
    lexemes (front ++ rest) = meet (lexemes front) (lexemes rest) := by
  induction front using text_induction with
  | blank gap blank => rw [lexemes_blank_alone blank, lexemes_blank blank, meet]
  | token gap piece token left blank taken ih =>
    rw [open_append_piece blank taken] at closed
    rw [List.append_assoc, List.append_assoc] at cut ⊢
    rw [lexemes_token blank (taken.spelt left (.inl rfl)) taken.more, meet_lexemes] at cut ⊢
    -- The piece is read as the same token although the text goes on behind it.
    have first : (Token.read (piece ++ (left ++ rest))).1 = token := by
      rw [lexemes_eq, read_blank blank] at cut
      exact (List.cons.inj cut).1
    have spelt := taken.spelt_before first
    rw [lexemes_token blank spelt taken.more] at cut ⊢
    rw [ih closed (List.cons.inj cut).2]
  | unclosed gap quote others blank mark absent =>
    rw [Text.open_behind_gap blank mark absent] at closed
    cases closed

/-- A quote that stays open takes the rest, and the text is not legal. -/
theorem lexemes_open {front rest : List Char} {quote : Char}
    (opened : Text.openQuote front = some quote) (absent : quote ∉ rest) :
    lexemes (front ++ rest) = lexemes front ∧
      ∃ lexeme ∈ lexemes front, lexeme.token.kind = .illegal := by
  induction front using text_induction with
  | blank gap blank =>
    rw [Text.openQuote, Text.fold_unquoted blank.unquoted] at opened
    cases opened
  | token gap piece token left blank taken ih =>
    rw [open_append_piece blank taken] at opened
    obtain ⟨same, lexeme, member, illegal⟩ := ih opened
    -- The quote is opened behind this token, so something is left.
    have follows : Token.Follows left (left ++ rest) := Token.follows_append <| by
      rintro rfl
      cases opened
    rw [List.append_assoc, List.append_assoc, lexemes_token blank (taken.spelt _ follows) taken.more,
      lexemes_token blank (taken.spelt left (.inl rfl)) taken.more, same]
    exact ⟨rfl, lexeme, List.mem_cons_of_mem _ member, illegal⟩
  | unclosed gap found others blank mark unclosed =>
    rw [Text.open_behind_gap blank mark unclosed] at opened
    obtain rfl := Option.some.inj opened
    have whole : found ∉ others ++ rest := by simp [unclosed, absent]
    rw [List.append_assoc, List.cons_append, lexemes_unclosed blank mark whole,
      lexemes_unclosed blank mark unclosed]
    exact ⟨rfl, _, List.mem_cons_self, rfl⟩

end TreeSelect
