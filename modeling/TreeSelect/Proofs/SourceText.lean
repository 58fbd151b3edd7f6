import TreeSelect.Proofs.Condensing
import TreeSelect.Proofs.Lookahead
import TreeSelect.Proofs.RoundTrip
import TreeSelect.Proofs.WhiteSpace

/-!
The argument of a function against the text between its parentheses. The reader keeps the tokens
and not the text; it puts their spellings together again, with one space wherever white space
stood between two of them. Tokens other than strings are spelled as they were written, so what
comes out is the text with its white space condensed. Classification does not see the difference,
and a refused argument is told in this form.

Strings are spelled with quotes of their own, and a parenthesis ends the argument or spoils it;
nothing is said here of texts that hold these.
-/

namespace TreeSelect

open Grammar

/-- The text holds none of the tokens that end an argument, spoil it or stand for themselves. -/
def Text.Enclosable (text : String) : Prop :=
  ∀ token ∈ tokens text,
    token.kind ∉ [TokenKind.string, .leftParen, .rightParen, .function, .illegal]

instance (text : String) : Decidable (Text.Enclosable text) :=
  List.decidableBAll (fun token : Token =>
    token.kind ∉ [TokenKind.string, .leftParen, .rightParen, .function, .illegal]) (tokens text)

/-! The text that is put together again. -/

/-- Tokens that are spelled as they were written. -/
def Verbatim (lexemes : List Lexeme) : Prop :=
  ∀ lexeme ∈ lexemes, lexeme.token.kind ≠ .string ∧ lexeme.token.kind ≠ .illegal

theorem lexemes_filled (text : List Char) : lexemes text ≠ [] := by
  rw [lexemes_eq]
  exact List.cons_ne_nil _ _

theorem condensed_piece {between piece left : List Char} {token : Token}
    (blank : Text.Blank between) (taken : Token.Piece piece token left)
    (verbatim : Verbatim (lexemes (between ++ (piece ++ left)))) (written : Bool) :
    Text.condensedAfter written false (between ++ (piece ++ left)) =
        gap (written && !between.isEmpty) ++
          (token.spelling.toList ++ Text.condensedAfter true false left) ∧
      (lexemes (between ++ (piece ++ left))).dropLast =
        ⟨!between.isEmpty, token⟩ :: (lexemes left).dropLast ∧
      Verbatim (lexemes left) := by
  have legible := lexemes_legible (between ++ (piece ++ left))
  rw [lexemes_token blank (taken.spelt left (.inl rfl)) taken.more] at legible verbatim ⊢
  obtain ⟨⟨unquoted, -⟩, later⟩ := List.forall_mem_cons.mp verbatim
  have plain := legible _ List.mem_cons_self
  have spelled := taken.spelled unquoted
  have solid := plain.solid unquoted
  have filled := plain.filled taken.more
  refine ⟨?_, List.dropLast_cons_of_ne_nil (lexemes_filled left), later⟩
  rw [spelled] at solid filled ⊢
  rw [Text.condensed_after_gap blank, Text.condensed_after_solid solid filled, Bool.false_or]

theorem spread_condensed (text : List Char) (verbatim : Verbatim (lexemes text)) :
    Alike.spread (lexemes text).dropLast = Text.condensedAfter true false text := by
  induction text using text_induction with
  | blank gap blank =>
      rw [lexemes_blank_alone blank, Text.condensed_after_blank blank]
      rfl
  | token between piece token left blank taken ih =>
      obtain ⟨condensed, split, later⟩ := condensed_piece blank taken verbatim true
      rw [condensed, split, Alike.spread_cons, ih later, Bool.true_and]
  | unclosed gap quote rest blank mark absent =>
      rw [lexemes_unclosed blank mark absent] at verbatim
      exact absurd rfl (verbatim _ List.mem_cons_self).2

theorem joined_condensed (text : List Char) (verbatim : Verbatim (lexemes text)) :
    argumentText (lexemes text).dropLast = String.ofList (Text.condensed text) := by
  apply String.toList_inj.mp
  rw [String.toList_ofList, Text.condensed]
  cases text using text_induction with
  | blank gap blank =>
      rw [lexemes_blank_alone blank, Text.condensed_after_blank blank]
      rfl
  | token between piece token left blank taken _ =>
      obtain ⟨condensed, split, later⟩ := condensed_piece blank taken verbatim false
      rw [condensed, split, Alike.argument_text_cons, spread_condensed left later]
      rfl
  | unclosed gap quote rest blank mark absent =>
      rw [lexemes_unclosed blank mark absent] at verbatim
      exact absurd rfl (verbatim _ List.mem_cons_self).2

/-! The lexemes of a call. -/

theorem lexemes_unspaced {piece rest : List Char} {token : Token}
    (spelt : Token.Spelt piece token rest) (more : token.isEnd = false) :
    lexemes (piece ++ rest) = ⟨false, token⟩ :: lexemes rest :=
  @lexemes_token [] piece rest token (List.forall_mem_nil _) spelt more

/-- The text in the parentheses keeps its tokens; white space behind it is the flag of the
closing one. -/
theorem lexemes_call {name text : String} (identifier : isIdentifier name = true)
    (enclosable : Text.Enclosable text) :
    ∃ spaced, lexemes (":" ++ name ++ "(" ++ text ++ ")").toList =
      ⟨false, ⟨.colon, ":"⟩⟩ :: ⟨false, ⟨.function, name⟩⟩ ::
        ((lexemes text.toList).dropLast ++
          ⟨spaced, ⟨.rightParen, ")"⟩⟩ :: [Window.endLexeme]) := by
  obtain ⟨inside, last, all, ends, -⟩ := lexemes_end text.toList
  have legal : ∀ lexeme ∈ inside, lexeme.token.kind ≠ .illegal := by
    intro lexeme member illegal
    have listed : lexeme.token ∈ tokens text := by
      rw [tokens, all, List.map_append]
      exact List.mem_append_left _ (List.mem_map_of_mem member)
    simpa [illegal] using enclosable _ listed
  have close : lexemes [')'] = [⟨false, ⟨.rightParen, ")"⟩⟩, Window.endLexeme] := by
    have here := lexemes_unspaced (@Token.spelt_punctuation ')' .rightParen rfl []) rfl
    rwa [List.append_nil, lexemes_nil] at here
  have argument : lexemes (text.toList ++ [')']) =
      inside ++ ⟨last.spaced, ⟨.rightParen, ")"⟩⟩ :: [Window.endLexeme] := by
    rw [lexemes_append (closed_of_legal all ends legal) (Token.clear_cons (by decide)), close, all,
      meet_concat, led, Bool.or_false]
  have function := lexemes_unspaced
    (Token.spelt_function identifier (text.toList ++ [')'])) rfl
  have whole := lexemes_unspaced (spelt_colon identifier ('(' :: (text.toList ++ [')']))) rfl
  rw [List.append_assoc] at function
  refine ⟨last.spaced, ?_⟩
  rw [all, List.dropLast_concat, ← argument, ← function]
  simp only [String.toList_append, List.append_assoc]
  exact whole

/-- What stands inside may be told by its tokens, the end token left out. -/
theorem inside_enclosable {text : String} (enclosable : Text.Enclosable text) :
    Verbatim (lexemes text.toList) ∧ ∀ lexeme ∈ (lexemes text.toList).dropLast,
      ArgumentToken lexeme.token.kind ∧ lexeme.token.kind ≠ .string := by
  have kinds : ∀ lexeme ∈ lexemes text.toList,
      lexeme.token.kind ∉ [TokenKind.string, .leftParen, .rightParen, .function, .illegal] :=
    fun lexeme member => enclosable _ (List.mem_map_of_mem member)
  simp only [List.mem_cons, List.not_mem_nil, or_false, not_or] at kinds
  obtain ⟨inside, last, all, -, others⟩ := lexemes_end text.toList
  refine ⟨fun lexeme member => ⟨(kinds lexeme member).1, (kinds lexeme member).2.2.2.2⟩, ?_⟩
  rw [all, List.dropLast_concat]
  intro lexeme member
  obtain ⟨noString, noOpen, noClose, noFunction, legal⟩ :=
    kinds lexeme (all ▸ List.mem_append_left _ member)
  have more : lexeme.token.kind ≠ .eof := by
    intro ends
    have goesOn := others lexeme member
    simp [Token.isEnd, ends] at goesOn
  exact ⟨⟨noOpen, noClose, noFunction, more, legal⟩, noString⟩

/-! Readings that are followed up to a fault. -/

namespace Reading

variable {α β : Type} {first : Reading α} {second : α → Reading β} {window after : Window}

theorem answer_behind {value : α} (read : Reads first window value after) :
    answer (first >>= second) window = answer (second value) after := by
  have found : answer first window = .ok value := by rw [answer, read]
  have left : stop first window = after := by rw [stop, read]
  rw [answer_bind, found, left]

theorem answer_stopped {halt : Halt} (stopped : answer first window = .error halt) :
    answer (first >>= second) window = .error halt := by
  rw [answer_bind, stopped]

/-- What is not classified is told as it was put together. -/
theorem argument_refused (name : String) (budget : Nat) {inside : List Lexeme}
    (plain : ∀ lexeme ∈ inside, ArgumentToken lexeme.token.kind ∧ lexeme.token.kind ≠ .string)
    (unknown : Argument.classify (argumentText inside) = none) {close : Lexeme}
    (closes : close.token.kind = .rightParen) (rest : List Lexeme)
    (enough : inside.length < budget) (current : Lexeme) :
    answer (argument name budget) ⟨current, inside ++ close :: rest⟩ =
      .error (.fault (.malformedArgument name (argumentText inside))) := by
  have inner : ∀ lexeme ∈ inside, ArgumentToken lexeme.token.kind :=
    fun lexeme member => (plain lexeme member).1
  have none : argumentOf? inside = none := by
    cases found : argumentOf? inside with
    | none => rfl
    | some value =>
        obtain string | ⟨-, classified⟩ := (argument_of_iff inside value inner).mp found
        · exact absurd string (plain _ List.mem_cons_self).2
        · rw [unknown] at classified
          cases classified
  rw [argument, answer_behind
    (argument_lexemes_given name budget [] inside rest close inner closes enough current)]
  simp only [List.nil_append, none, join_spellings_eq]
  rfl

theorem call_refused (depth : Nat) {name : String}
    (notNot : Text.sameName name "not" = false) (notHas : Text.sameName name "has" = false)
    {inside : List Lexeme}
    (plain : ∀ lexeme ∈ inside, ArgumentToken lexeme.token.kind ∧ lexeme.token.kind ≠ .string)
    (unknown : Argument.classify (argumentText inside) = none) {close : Lexeme}
    (closes : close.token.kind = .rightParen) (rest : List Lexeme)
    (enough : inside.length < depth) :
    answer (simple (depth + 1)) ⟨⟨false, ⟨.colon, ":"⟩⟩,
        ⟨false, ⟨.function, name⟩⟩ :: (inside ++ close :: rest)⟩ =
      .error (.fault (.malformedArgument name (argumentText inside))) := by
  have refused := argument_refused name depth plain unknown closes rest enough
    ⟨false, ⟨.function, name⟩⟩
  have moved : ∀ current first ahead, first.token.kind ≠ .illegal →
      Reads advance ⟨current, first :: ahead⟩ () ⟨first, ahead⟩ :=
    fun current first ahead legal => (reads_advance _ _ _).mpr ⟨rfl, legal⟩
  rw [simple, answer_behind ((reads_token _ _ _).mpr ⟨rfl, rfl⟩)]
  simp only [pseudoClass]
  rw [answer_behind ((reads_next _ _ _).mpr ⟨rfl, rfl⟩)]
  simp only [Window.next, List.headD_cons, Bool.false_eq_true, if_false]
  rw [answer_behind (moved _ _ _ (by simp))]
  simp only [function, notNot, notHas, Bool.false_eq_true, if_false]
  exact answer_stopped refused

/-- The fault of the first simple selector is the fault of the text. -/
theorem whole_selector_stopped (budget : Nat) {first : Lexeme} {ahead : List Lexeme} {halt : Halt}
    (starts : startsFilter first.token.kind = true)
    (stopped : answer (simple budget) ⟨first, ahead⟩ = .error halt) :
    answer (wholeSelector budget) ⟨first, ahead⟩ = .error halt := by
  have noBase : first.token.kind ≠ .ident ∧ first.token.kind ≠ .asterisk := by
    constructor <;> intro same <;> rw [same] at starts <;> cases starts
  have compound : answer (compound (simple budget) budget) ⟨first, ahead⟩ = .error halt := by
    rw [compound, answer_behind ((reads_token _ _ _).mpr ⟨rfl, rfl⟩)]
    split
    · next name => exact absurd name noBase.1
    · next star => exact absurd star noBase.2
    · rw [if_pos starts]
      exact answer_stopped stopped
  have chain : answer (chain (simple budget) budget) ⟨first, ahead⟩ = .error halt :=
    answer_stopped compound
  have list : answer (selectorList (simple budget) budget) ⟨first, ahead⟩ = .error halt :=
    answer_stopped chain
  exact answer_stopped list

end Reading

/-! Calls as whole texts. -/

section
variable {name text : String} (identifier : isIdentifier name = true)
  (notNot : Text.sameName name "not" = false) (notHas : Text.sameName name "has" = false)
  (enclosable : Text.Enclosable text)
include identifier notNot notHas enclosable

theorem parse_call {argument : Argument} (known : Argument.classify text = some argument) :
    parse (":" ++ name ++ "(" ++ text ++ ")") = .ok (.compound none [.functional name argument]) := by
  obtain ⟨spaced, all⟩ := lexemes_call identifier enclosable
  obtain ⟨verbatim, plain⟩ := inside_enclosable enclosable
  have classified : Argument.classify (argumentText (lexemes text.toList).dropLast) =
      some argument := by
    rw [joined_condensed _ verbatim, Argument.classify_condensed, known]
  have call : Call name (lexemes text.toList).dropLast
      (⟨false, ⟨.colon, ":"⟩⟩ :: ⟨false, ⟨.function, name⟩⟩ ::
        ((lexemes text.toList).dropLast ++ [⟨spaced, ⟨.rightParen, ")"⟩⟩])) := .mk rfl rfl rfl rfl
  have compound := Compound.bare (.functional call notNot notHas (.bare plain classified)) .none
  rw [List.append_nil] at compound
  refine (parse_ok_iff _ _).mpr
    ⟨_, Window.endLexeme, ?_, rfl, listing_of_chain (chain_of_compound compound)⟩
  rw [all, List.cons_append, List.cons_append, List.append_assoc, List.singleton_append]

theorem parse_call_refused (unknown : Argument.classify text = none) :
    parse (":" ++ name ++ "(" ++ text ++ ")") =
      .error (.malformedArgument name (String.ofList (Text.condensed text.toList))) := by
  obtain ⟨spaced, all⟩ := lexemes_call identifier enclosable
  obtain ⟨verbatim, plain⟩ := inside_enclosable enclosable
  have joined := joined_condensed text.toList verbatim
  have unclassified : Argument.classify (argumentText (lexemes text.toList).dropLast) =
      none := by
    rw [joined, Argument.classify_condensed, unknown]
  have window : Window.ofText (":" ++ name ++ "(" ++ text ++ ")") =
      ⟨⟨false, ⟨.colon, ":"⟩⟩, ⟨false, ⟨.function, name⟩⟩ ::
        ((lexemes text.toList).dropLast ++
          ⟨spaced, ⟨.rightParen, ")"⟩⟩ :: [Window.endLexeme])⟩ := by
    rw [Window.ofText, all]
  rw [parse_error_iff, readText, window, ← joined]
  apply Reading.whole_selector_stopped _ rfl
  apply Reading.call_refused _ notNot notHas plain unclassified rfl
  simp only [List.length_append, List.length_cons]
  omega

end

/-! Main results. -/

/-- A function other than `:not()` and `:has()` gets the argument that the text between its
parentheses is classified as, and where that is none the text is told, condensed. -/
theorem argument_of_source_text {name text : String} (identifier : isIdentifier name = true)
    (notNot : Text.sameName name "not" = false) (notHas : Text.sameName name "has" = false)
    (enclosable : Text.Enclosable text) :
    (∀ argument, Argument.classify text = some argument →
      parse (":" ++ name ++ "(" ++ text ++ ")") =
        .ok (.compound none [.functional name argument])) ∧
    (Argument.classify text = none →
      parse (":" ++ name ++ "(" ++ text ++ ")") =
        .error (.malformedArgument name (String.ofList (Text.condensed text.toList)))) :=
  ⟨fun _ known => parse_call identifier notNot notHas enclosable known,
    parse_call_refused identifier notNot notHas enclosable⟩

/-- White space around a sign is free. In a name it is not, and the name is told with what is
left of it. -/
theorem spaced_arguments_read :
    parse (":" ++ "nth-child" ++ "(" ++ "\n-n  + 3 " ++ ")") =
        .ok (.compound none [.functional "nth-child" (.dimension ⟨1, .minus, 3, .plus⟩)]) ∧
      parse (":" ++ "lang" ++ "(" ++ " fr \t-be" ++ ")") =
        .error (.malformedArgument "lang" "fr -be") := by
  have formula := argument_of_source_text (show isIdentifier "nth-child" = true by decide)
    (by decide +kernel) (by decide +kernel) (show Text.Enclosable "\n-n  + 3 " by decide +kernel)
  have language := argument_of_source_text (show isIdentifier "lang" = true by decide)
    (by decide +kernel) (by decide +kernel) (show Text.Enclosable " fr \t-be" by decide +kernel)
  exact ⟨formula.1 _ (by decide +kernel), language.2 (by decide +kernel)⟩

end TreeSelect
