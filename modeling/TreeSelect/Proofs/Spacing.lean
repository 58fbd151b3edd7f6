import TreeSelect.Proofs.Arguments
import TreeSelect.Proofs.Pieces

/-!
White space between lexemes, and where it counts. Two lists of lexemes are alike when they
hold the same tokens and their flags differ next to marks only: beside a comma, a combinator
or an operator, inside brackets and parentheses, and at the end. Arguments of functions are
put together from tokens again, white space included; alike lexemes make the same argument.
-/

namespace TreeSelect

namespace TokenKind

/-- Commas, combinators and the operators of attributes: white space is free on both sides. -/
def separates (kind : TokenKind) : Bool :=
  kind == .comma || (Combinator.ofKind? kind).isSome || (AttributeOperator.ofKind? kind).isSome

/-- White space is free behind the token. -/
def opens (kind : TokenKind) : Bool :=
  kind.separates || kind == .leftBracket || kind == .function

/-- White space is free before the token. -/
def closes (kind : TokenKind) : Bool :=
  kind.separates || kind == .rightBracket || kind == .rightParen

/-- The marks that may stand in an argument. -/
def isMark (kind : TokenKind) : Bool :=
  kind.separates || kind == .leftBracket || kind == .rightBracket

end TokenKind

/-- Between tokens of these kinds white space is free. -/
def Loose (before after : TokenKind) : Prop :=
  before.opens = true ∨ after.closes = true ∨ after = .eof

/-- The same tokens behind a token of the given kind, with the same white space wherever it
counts. -/
inductive Alike : TokenKind → List Lexeme → List Lexeme → Prop where
  | nil {before : TokenKind} : Alike before [] []
  | cons {before : TokenKind} {x y : Lexeme} {xs ys : List Lexeme} :
      y.token = x.token → (y.spaced = x.spaced ∨ Loose before x.token.kind) →
      Alike x.token.kind xs ys → Alike before (x :: xs) (y :: ys)

/-- The kind of the last token, where the list is behind a token of the given kind. -/
def lastKind : TokenKind → List Lexeme → TokenKind
  | before, [] => before
  | _, x :: xs => lastKind x.token.kind xs

theorem last_kind_append (before : TokenKind) (xs ys : List Lexeme) :
    lastKind before (xs ++ ys) = lastKind (lastKind before xs) ys := by
  induction xs generalizing before with
  | nil => rfl
  | cons x xs ih => exact ih x.token.kind

namespace Alike

theorem refl (before : TokenKind) (xs : List Lexeme) : Alike before xs xs := by
  induction xs generalizing before with
  | nil => exact .nil
  | cons x xs ih => exact .cons rfl (.inl rfl) (ih x.token.kind)

theorem append {before : TokenKind} {xs ys xs' ys' : List Lexeme}
    (here : Alike before xs xs') (there : Alike (lastKind before xs) ys ys') :
    Alike before (xs ++ ys) (xs' ++ ys') := by
  induction here with
  | nil => exact there
  | cons token flag _ ih => exact .cons token flag (ih there)

theorem split {before : TokenKind} {xs ys zs : List Lexeme} (alike : Alike before (xs ++ ys) zs) :
    ∃ front back, zs = front ++ back ∧ Alike before xs front ∧
      Alike (lastKind before xs) ys back := by
  induction xs generalizing before zs with
  | nil => exact ⟨[], zs, rfl, .nil, alike⟩
  | cons x xs ih =>
      cases alike with
      | cons token flag rest =>
          obtain ⟨front, back, rfl, here, there⟩ := ih rest
          exact ⟨_ :: front, back, rfl, .cons token flag here, there⟩

theorem exists_same {before : TokenKind} {xs ys : List Lexeme} (alike : Alike before xs ys)
    {y : Lexeme} (member : y ∈ ys) : ∃ x ∈ xs, x.token = y.token := by
  induction alike with
  | nil => cases member
  | @cons _ x _ _ _ same _ _ ih =>
      rcases List.mem_cons.mp member with rfl | later
      · exact ⟨x, List.mem_cons_self, same.symm⟩
      · obtain ⟨origin, listed, token⟩ := ih later
        exact ⟨origin, List.mem_cons_of_mem x listed, token⟩

theorem symm {before : TokenKind} {xs ys : List Lexeme} (alike : Alike before xs ys) :
    Alike before ys xs := by
  induction alike with
  | nil => exact .nil
  | cons token flag _ ih =>
      refine .cons token.symm ?_ (token ▸ ih)
      rw [token]
      exact flag.imp_left Eq.symm

/-- The flag of the first lexeme is free to change beside a mark. -/
theorem of_led {before : TokenKind} {xs : List Lexeme}
    (loose : ∀ x ∈ xs.head?, Loose before x.token.kind) (here there : Bool) :
    Alike before (led here xs) (led there xs) := by
  cases xs with
  | nil => exact .nil
  | cons x xs => exact .cons rfl (.inr (loose x rfl)) (refl _ xs)

theorem of_meet {before : TokenKind} {inside there : List Lexeme} (last : Lexeme)
    (loose : ∀ x ∈ there.head?, Loose (lastKind before inside) x.token.kind) (spaced : Bool) :
    Alike before (meet (inside ++ [last]) there) (meet (inside ++ [last]) (led spaced there)) := by
  rw [meet_concat, meet_concat, led_led]
  exact (refl before inside).append (of_led loose _ _)

end Alike

namespace Token

/-- No character of the text stands in a name or in a number. -/
def Wordless (text : List Char) : Prop :=
  ∀ c ∈ text, isIdentChar c = false ∧ Text.isAlphanumeric c = false

-- Named, as a search could find the instance that decides a statement on all characters.
instance (text : List Char) : Decidable (Wordless text) :=
  List.decidableBAll (fun c => isIdentChar c = false ∧ Text.isAlphanumeric c = false) text

/-- How tokens are spelled: with white space between quotes only, and marks by themselves. -/
structure Legible (token : Token) : Prop where
  filled : token.isEnd = false → token.spelling.toList ≠ []
  solid : token.kind ≠ .string → Argument.Solid token.spelling.toList
  mark : token.kind.isMark = true → Wordless token.spelling.toList

theorem legible_of_unmarked {token : Token}
    (filled : token.isEnd = false → token.spelling.toList ≠ [])
    (solid : token.kind ≠ .string → Argument.Solid token.spelling.toList)
    (unmarked : token.kind.isMark = false) : token.Legible := by
  refine ⟨filled, solid, fun mark => ?_⟩
  rw [unmarked] at mark
  cases mark

theorem legible_lone {c : Char} (solid : Text.isBlank c = false) :
    Legible ⟨.illegal, c.toString⟩ :=
  legible_of_unmarked (by simp [spelling]) (by simpa [spelling, Argument.Solid] using solid) rfl

theorem legible_quoted (quote : Char) (rest : List Char) (solid : Text.isBlank quote = false) :
    (readQuoted quote rest).1.Legible := by
  unfold readQuoted
  split
  · exact legible_lone solid
  · exact legible_of_unmarked (by simp [spelling]) (absurd rfl) rfl

theorem legible_punctuation {c : Char} {kind : TokenKind} (known : punctuation? c = some kind) :
    Legible ⟨kind, c.toString⟩ := by
  unfold punctuation? at known
  split at known <;> cases known <;>
    exact ⟨by decide, by decide, by decide +kernel⟩

theorem legible_pair {c : Char} {pair : Pair} (known : pair? c = some pair) (rest : List Char) :
    (readPair c pair rest).1.Legible := by
  have tokens : Legible ⟨pair.together, String.ofList [c, pair.second]⟩ ∧
      Legible ⟨pair.alone, c.toString⟩ := by
    unfold pair? at known
    split at known <;> cases known <;> constructor <;>
      exact ⟨by decide, by decide, by decide +kernel⟩
  cases rest with
  | nil => exact tokens.2
  | cons next rest =>
      simp only [readPair]
      split
      · next same => exact same ▸ tokens.1
      · exact tokens.2

theorem solid_ident_chars (text : List Char) : Argument.Solid (text.takeWhile isIdentChar) :=
  fun c member => is_blank_of_is_ident_char c (List.all_eq_true.mp List.all_takeWhile c member)

theorem legible_sigil {mark : Char} {kind : TokenKind} (known : sigil? mark = some kind)
    (rest : List Char) : (readSigil mark kind rest).1.Legible := by
  have solid : Text.isBlank mark = false := by
    unfold sigil? at known
    split at known <;> cases known <;> decide
  cases rest with
  | nil => exact legible_lone solid
  | cons first rest =>
      simp only [readSigil]
      split
      · have name := solid_ident_chars (first :: rest)
        unfold sigil? at known
        split at known <;> cases known
        · exact legible_of_unmarked (by simp [spelling])
            (by simpa [spelling, Argument.Solid, solid] using name) rfl
        · exact legible_of_unmarked (by simp [spelling])
            (by simpa [spelling, Argument.Solid, solid] using name) rfl
      · exact legible_lone solid

theorem legible_name {c : Char} (start : isIdentStart c = true) (rest : List Char) :
    (readName (c :: rest)).1.Legible := by
  have name := solid_ident_chars (c :: rest)
  have filled : (c :: rest).takeWhile isIdentChar ≠ [] := by
    simp [is_ident_char_of_start c start]
  unfold readName
  split
  · refine legible_of_unmarked (by simp [spelling]) (fun _ => ?_) rfl
    simp only [spelling, String.toList_append, String.toList_ofList]
    exact List.forall_mem_append.mpr ⟨name, List.forall_mem_singleton.mpr (by decide)⟩
  · exact legible_of_unmarked (by simpa [spelling] using fun _ => filled)
      (by simpa [spelling] using name) rfl

theorem legible_number {c : Char} (digit : c.isDigit = true) (rest : List Char) :
    (readNumber (c :: rest)).1.Legible := by
  refine legible_of_unmarked (by simp [readNumber, spelling, digit]) (fun _ => ?_) rfl
  intro d member
  simp only [readNumber, spelling, String.toList_ofList] at member
  exact Text.is_blank_of_is_digit d (List.all_eq_true.mp List.all_takeWhile d member)

theorem legible_at (c : Char) (rest : List Char) (solid : Text.isBlank c = false) :
    (readAt c rest).1.Legible := by
  induction c, rest using read_at_cases with
  | quoted quote rest mark read => exact read ▸ legible_quoted quote rest solid
  | punctuation c rest kind known read => exact read ▸ legible_punctuation known
  | pair c rest pair known read => exact read ▸ legible_pair known rest
  | sigil c rest kind known read => exact read ▸ legible_sigil known rest
  | minus rest none read =>
      rw [read]
      exact @legible_of_unmarked ⟨.minus, "-"⟩ (by decide) (by decide) rfl
  | name c rest start identifier read => exact read ▸ legible_name start rest
  | number c rest digit read => exact read ▸ legible_number digit rest
  | illegal c rest plain read => exact read rest ▸ legible_lone solid

end Token

theorem lexemes_legible (text : List Char) : ∀ lexeme ∈ lexemes text, lexeme.token.Legible := by
  have read (text : List Char) : (Token.read text).1.Legible := by
    unfold Token.read
    split
    · exact Token.legible_of_unmarked nofun
        (by simp [Token.spelling, Token.endOfInput, Argument.Solid]) rfl
    · next c rest found =>
      exact Token.legible_at c rest (Token.head_drop_while _ text c (by rw [found]; rfl))
  fun_induction lexemes text with
  | case1 text next more ih => exact List.forall_mem_cons.mpr ⟨read text, ih⟩
  | case2 text next last => exact List.forall_mem_singleton.mpr (read text)

/-! Arguments. White space that is free stands next to a mark, so it splits no term; and no
name is made of marks. -/

namespace Argument

theorem splits_term_after_gap (previous : Option Char) (spaced : Bool) (text : List Char) :
    splitsTermAfter previous false (gap spaced ++ text) = splitsTermAfter previous spaced text := by
  cases spaced with
  | false => rfl
  | true => simp [gap, splitsTermAfter, show Text.isBlank ' ' = true by decide]

theorem splits_term_after_free {previous : Option Char} {c : Char} (solid : Text.isBlank c = false)
    (free : previous.any Text.isAlphanumeric = false ∨ Text.isAlphanumeric c = false)
    (here there : Bool) (text : List Char) :
    splitsTermAfter previous here (c :: text) = splitsTermAfter previous there (c :: text) := by
  rcases free with free | free <;> simp [splitsTermAfter, solid, free]

theorem splits_term_after_congr {word text other : List Char} (solid : Solid word)
    (filled : word ≠ []) (previous : Option Char) (spaced : Bool)
    (same : ∀ c ∈ word, splitsTermAfter (some c) false text = splitsTermAfter (some c) false other) :
    splitsTermAfter previous spaced (word ++ text) =
      splitsTermAfter previous spaced (word ++ other) := by
  induction word generalizing previous spaced with
  | nil => exact absurd rfl filled
  | cons c word ih =>
      have here : splitsTermAfter (some c) false (word ++ text) =
          splitsTermAfter (some c) false (word ++ other) := by
        by_cases last : word = []
        · rw [last]
          exact same c List.mem_cons_self
        · exact ih (fun d member => solid d (List.mem_cons_of_mem c member)) last _ _
            fun d member => same d (List.mem_cons_of_mem c member)
      simp only [List.cons_append, splitsTermAfter, solid c List.mem_cons_self, here,
        Bool.false_eq_true, if_false]

theorem mem_trim {c : Char} {text : List Char} (member : c ∈ text)
    (solid : Text.isBlank c = false) : c ∈ trimBlanks text := by
  have kept : c ∈ text.filter (!Text.isBlank ·) := List.mem_filter.mpr ⟨member, by simp [solid]⟩
  rw [← filter_trim] at kept
  exact (List.mem_filter.mp kept).1

end Argument

namespace Alike

open Grammar

/-- The text of lexemes that stand behind another one. -/
def spread (xs : List Lexeme) : List Char :=
  xs.flatMap fun x => gap x.spaced ++ x.token.spelling.toList

theorem spread_cons (x : Lexeme) (xs : List Lexeme) :
    spread (x :: xs) = gap x.spaced ++ (x.token.spelling.toList ++ spread xs) := by
  simp [spread]

theorem argument_text_cons (x : Lexeme) (xs : List Lexeme) :
    (argumentText (x :: xs)).toList = x.token.spelling.toList ++ spread xs := by
  have flags : ∀ spaced : Bool, (if spaced then " " else "").toList = gap spaced := by decide
  induction xs generalizing x with
  | nil => exact (List.append_nil _).symm
  | cons y ys ih =>
      rw [argumentText, String.toList_append, String.toList_append, flags, ih, spread_cons,
        List.append_assoc]

/-- Tokens of a text that an argument other than a string is put together from. -/
def Inner (xs : List Lexeme) : Prop :=
  ∀ x ∈ xs, (ArgumentToken x.token.kind ∧ x.token.kind ≠ .string) ∧ x.token.Legible

theorem mark_of_loose {before after : TokenKind} (first : ArgumentToken before)
    (second : ArgumentToken after) (loose : Loose before after) :
    before.isMark = true ∨ after.isMark = true := by
  rcases loose with opens | closes | ends
  · have noCall := first.2.2.1
    simp only [TokenKind.opens, Bool.or_eq_true, beq_iff_eq, noCall, or_false] at opens
    exact .inl (by simp [TokenKind.isMark, opens])
  · have noClose := second.2.1
    simp only [TokenKind.closes, Bool.or_eq_true, beq_iff_eq, noClose, or_false] at closes
    exact .inr (by rcases closes with mark | mark <;> simp [TokenKind.isMark, mark])
  · exact absurd ends second.2.2.2.1

/-- The previous character is given, since white space before a word counts behind a word only. -/
theorem splits_term_eq {before : TokenKind} {xs ys : List Lexeme} (alike : Alike before xs ys)
    (token : ArgumentToken before) (inner : Inner xs) {previous : Option Char}
    (behind : before.isMark = true → previous.any Text.isAlphanumeric = false) :
    Argument.splitsTermAfter previous false (spread xs) =
      Argument.splitsTermAfter previous false (spread ys) := by
  induction alike generalizing previous with
  | nil => rfl
  | @cons before x y xs ys same flag rest ih =>
      obtain ⟨⟨⟨token', unquoted⟩, legible⟩, inner⟩ := List.forall_mem_cons.mp inner
      have solid := legible.solid unquoted
      have filled := legible.filled (by simpa [Token.isEnd] using token'.2.2.2.1)
      have later : ∀ c ∈ x.token.spelling.toList,
          Argument.splitsTermAfter (some c) false (spread xs) =
            Argument.splitsTermAfter (some c) false (spread ys) :=
        fun c member => ih token' inner fun mark => (legible.mark mark c member).2
      rw [spread_cons, spread_cons, same, Argument.splits_term_after_gap,
        Argument.splits_term_after_gap,
        Argument.splits_term_after_congr solid filled previous x.spaced later]
      rcases flag with equal | loose
      · rw [equal]
      · obtain ⟨c, word, spelled⟩ := List.exists_cons_of_ne_nil filled
        have first : c ∈ x.token.spelling.toList := spelled ▸ List.mem_cons_self
        rw [spelled]
        apply Argument.splits_term_after_free (solid c first)
        exact (mark_of_loose token token' loose).imp behind fun mark => (legible.mark mark c first).2

theorem filter_eq {before : TokenKind} {xs ys : List Lexeme} (alike : Alike before xs ys) :
    (spread xs).filter (!Text.isBlank ·) = (spread ys).filter (!Text.isBlank ·) := by
  have none : ∀ spaced, (gap spaced).filter (!Text.isBlank ·) = [] := by decide
  induction alike with
  | nil => rfl
  | cons same _ _ ih => simp only [spread_cons, List.filter_append, none, same, ih]

/-- Where no mark stands, white space counts everywhere. -/
theorem spread_eq {before : TokenKind} {xs ys : List Lexeme} (alike : Alike before xs ys)
    (token : ArgumentToken before) (plain : before.isMark = false) (inner : Inner xs)
    (words : ∀ x ∈ xs, x.token.kind.isMark = false) : spread xs = spread ys := by
  induction alike with
  | nil => rfl
  | @cons before x y xs ys same flag _ ih =>
      obtain ⟨⟨⟨token', -⟩, -⟩, inner⟩ := List.forall_mem_cons.mp inner
      obtain ⟨word, words⟩ := List.forall_mem_cons.mp words
      have equal : y.spaced = x.spaced := by
        refine flag.resolve_right fun loose => ?_
        have mark := mark_of_loose token token' loose
        simp [plain, word] at mark
      rw [spread_cons, spread_cons, equal, same, ih token' word inner words]

/-- A name holds no marks, so it is not put together from tokens with a mark among them. -/
theorem no_name {text : List Char} {xs : List Lexeme} {x : Lexeme} (inner : Inner xs)
    (member : x ∈ xs) (mark : x.token.kind.isMark = true)
    (part : ∀ c ∈ x.token.spelling.toList, c ∈ text) :
    isIdentifier (String.ofList (Argument.trimBlanks text)) = false := by
  obtain ⟨⟨token, unquoted⟩, legible⟩ := inner x member
  obtain ⟨c, word, spelled⟩ :=
    List.exists_cons_of_ne_nil (legible.filled (by simpa [Token.isEnd] using token.2.2.2.1))
  have first : c ∈ x.token.spelling.toList := spelled ▸ List.mem_cons_self
  have kept := Argument.mem_trim (part c first) (legible.solid unquoted c first)
  apply eq_false_of_ne_true
  intro identifier
  have char := Token.ident_chars identifier c (by rwa [String.toList_ofList])
  rw [(legible.mark mark c first).1] at char
  cases char

theorem mem_argument_text {x lexeme : Lexeme} {xs : List Lexeme} (member : lexeme ∈ x :: xs) :
    ∀ c ∈ lexeme.token.spelling.toList, c ∈ (argumentText (x :: xs)).toList := by
  intro c part
  rw [argument_text_cons, List.mem_append]
  rcases List.mem_cons.mp member with rfl | later
  · exact .inl part
  · exact .inr (List.mem_flatMap.mpr ⟨lexeme, later, List.mem_append_right _ part⟩)

theorem classify_eq {x y : Lexeme} {xs ys : List Lexeme} (same : y.token = x.token)
    (alike : Alike x.token.kind xs ys) (inner : Inner (x :: xs)) {argument : Argument}
    (found : Argument.classify (argumentText (x :: xs)) = some argument) :
    Argument.classify (argumentText (y :: ys)) = some argument := by
  obtain ⟨⟨⟨token, unquoted⟩, legible⟩, later⟩ := List.forall_mem_cons.mp inner
  by_cases marked : ∃ lexeme ∈ x :: xs, lexeme.token.kind.isMark = true
  · obtain ⟨lexeme, member, mark⟩ := marked
    have noName := no_name inner member mark (mem_argument_text member)
    have filled := legible.filled (by simpa [Token.isEnd] using token.2.2.2.1)
    have splits : Argument.splitsTerm (argumentText (x :: xs)).toList =
        Argument.splitsTerm (argumentText (y :: ys)).toList := by
      rw [argument_text_cons, argument_text_cons, same]
      refine Argument.splits_term_after_congr (legible.solid unquoted) filled none false ?_
      exact fun c part => alike.splits_term_eq token later fun mark => (legible.mark mark c part).2
    have filtered : (argumentText (x :: xs)).toList.filter (!Text.isBlank ·) =
        (argumentText (y :: ys)).toList.filter (!Text.isBlank ·) := by
      rw [argument_text_cons, argument_text_cons, same, List.filter_append, List.filter_append,
        alike.filter_eq]
    simp only [Argument.classify, splits, filtered, noName] at found ⊢
    split at found
    · cases found
    · next whole =>
      rw [if_neg whole]
      split at found
      · next number => exact found
      · cases found
  · have words : ∀ lexeme ∈ x :: xs, lexeme.token.kind.isMark = false :=
      fun lexeme member => eq_false_of_ne_true fun mark => marked ⟨lexeme, member, mark⟩
    obtain ⟨word, words⟩ := List.forall_mem_cons.mp words
    have texts : argumentText (y :: ys) = argumentText (x :: xs) := by
      apply String.toList_inj.mp
      rw [argument_text_cons, argument_text_cons, same, spread_eq alike token word later words]
    rw [texts, found]

theorem argument_of {xs ys : List Lexeme} {argument : Argument} (phrase : ArgumentOf xs argument)
    (legible : ∀ x ∈ xs, x.token.Legible) (alike : Alike .function xs ys) :
    ArgumentOf ys argument := by
  cases phrase with
  | quoted string =>
      obtain _ | ⟨same, -, _ | _⟩ := alike
      rw [← same] at string ⊢
      exact .quoted string
  | bare plain found =>
      have tokens : ∀ y ∈ ys, ArgumentToken y.token.kind ∧ y.token.kind ≠ .string := by
        intro y member
        obtain ⟨x, origin, same⟩ := alike.exists_same member
        exact same ▸ plain x origin
      refine .bare tokens ?_
      cases alike with
      | nil => exact found
      | cons same _ rest =>
          exact classify_eq same rest (fun x member => ⟨plain x member, legible x member⟩) found

end Alike
end TreeSelect
