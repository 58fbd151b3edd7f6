import TreeSelect.Proofs.Characters

/-!
Texts taken apart into lexemes. `Scans text lexemes rest` reads the lexemes off the front of
a text; a spelling is a text from which one token is read, whatever is known to follow.
-/

namespace TreeSelect

/-- Reading the lexemes off the text, none of them the end token, leaves the rest. -/
inductive Scans : List Char → List Lexeme → List Char → Prop where
  | done {text : List Char} : Scans text [] text
  | more {text rest : List Char} {lexemes : List Lexeme} :
      (Token.read text).1.isEnd = false →
      Scans (Token.read text).2 lexemes rest →
      Scans text ((Lexeme.read text).1 :: lexemes) rest

namespace Scans

theorem lexemes_eq {text rest : List Char} {front : List Lexeme}
    (scan : Scans text front rest) : lexemes text = front ++ lexemes rest := by
  induction scan with
  | done => rfl
  | more more _ ih =>
    rw [lexemes, List.cons_append, ← ih]
    exact dif_pos more

theorem append {text middle rest : List Char} {first second : List Lexeme}
    (here : Scans text first middle) (there : Scans middle second rest) :
    Scans text (first ++ second) rest := by
  induction here with
  | done => exact there
  | more more _ ih => exact .more more (ih there)

end Scans

/-- The white space that the flag of a lexeme is printed as. -/
def gap (spaced : Bool) : List Char := if spaced then [' '] else []

namespace Token

/-- The spelling is read as the token wherever it stands directly before the rest. -/
def Spelt (spelling : List Char) (token : Token) (rest : List Char) : Prop :=
  ∃ c tail, spelling = c :: tail ∧ Text.isBlank c = false ∧
    readAt c (tail ++ rest) = (token, rest)

theorem Spelt.scans {spelling rest : List Char} {token : Token}
    (spelt : Spelt spelling token rest) (more : token.isEnd = false) (spaced : Bool) :
    Scans (gap spaced ++ (spelling ++ rest)) [⟨spaced, token⟩] rest := by
  obtain ⟨c, tail, rfl, solid, taken⟩ := spelt
  have blank : Text.isBlank ' ' = true := by decide
  have found : read (gap spaced ++ (c :: tail ++ rest)) = (token, rest) := by
    cases spaced <;> simp [gap, read, blank, solid, taken]
  have flag : startsBlank (gap spaced ++ (c :: tail ++ rest)) = spaced := by
    cases spaced <;> simp [gap, startsBlank, blank, solid]
  have scan := @Scans.more (gap spaced ++ (c :: tail ++ rest)) rest []
  simp only [Lexeme.read, found, flag] at scan
  exact scan more .done

/-- What follows does not lengthen a name, turn it into a function or `*` into an operator. -/
def Apart : List Char → Prop
  | [] => True
  | c :: _ => isIdentChar c = false ∧ c ≠ '(' ∧ c ≠ '='

theorem span_stopped {keep : Char → Bool} {front rest : List Char}
    (member : ∀ c ∈ front, keep c = true) (stops : ∀ c ∈ rest.head?, keep c = false) :
    (front ++ rest).takeWhile keep = front ∧ (front ++ rest).dropWhile keep = rest := by
  rw [List.takeWhile_append_of_pos member, List.dropWhile_append_of_pos member]
  cases rest with
  | nil => simp
  | cons c rest => simp [stops c rfl]

theorem head_drop_while (keep : Char → Bool) (text : List Char) :
    ∀ c ∈ (text.dropWhile keep).head?, keep c = false := by
  intro c head
  have stopped := List.head?_dropWhile_not keep text
  rw [Option.mem_def.mp head] at stopped
  simpa using stopped

theorem starts_with_ident_char_iff (text : List Char) :
    startsWithIdentChar text = false ↔ ∀ c ∈ text.head?, isIdentChar c = false := by
  cases text <;> simp [startsWithIdentChar]

theorem name_split {name rest : List Char} (member : ∀ c ∈ name, isIdentChar c = true)
    (ends : startsWithIdentChar rest = false) :
    (name ++ rest).takeWhile isIdentChar = name ∧ (name ++ rest).dropWhile isIdentChar = rest :=
  span_stopped member ((starts_with_ident_char_iff rest).mp ends)

theorem read_name_ident {name rest : List Char} (member : ∀ c ∈ name, isIdentChar c = true)
    (ends : startsWithIdentChar rest = false) (noCall : rest.head? ≠ some '(') :
    readName (name ++ rest) = (⟨.ident, String.ofList name⟩, rest) := by
  obtain ⟨taken, left⟩ := name_split member ends
  simp only [readName, taken, left]
  split
  · exact absurd rfl noCall
  · rfl

theorem read_name_function {name : List Char} (member : ∀ c ∈ name, isIdentChar c = true)
    (rest : List Char) :
    readName (name ++ '(' :: rest) = (⟨.function, String.ofList name⟩, rest) := by
  obtain ⟨taken, left⟩ := @name_split name ('(' :: rest) member
    (show isIdentChar '(' = false by decide)
  simp only [readName, taken, left]

theorem is_identifier_iff (name : String) :
    isIdentifier name = true ↔
      ∃ first others, name.toList = first :: others ∧ isIdentStart first = true ∧
        (∀ c ∈ others, isIdentChar c = true) ∧ (first = '-' → others ≠ []) := by
  unfold isIdentifier
  split
  · next none => simp [none]
  · next lone => simp [lone]
  · next first others notLone found =>
    simp only [found, Bool.and_eq_true, List.all_eq_true, List.cons.injEq]
    constructor
    · rintro ⟨start, member⟩
      refine ⟨first, others, ⟨rfl, rfl⟩, start, member, ?_⟩
      rintro rfl rfl
      exact notLone rfl rfl
    · rintro ⟨_, _, ⟨rfl, rfl⟩, start, member, -⟩
      exact ⟨start, member⟩

theorem identifier_of_start {c : Char} {rest : List Char} (start : isIdentStart c = true)
    (more : c = '-' → startsWithIdentChar rest = true) :
    isIdentifier (String.ofList ((c :: rest).takeWhile isIdentChar)) = true := by
  rw [is_identifier_iff]
  refine ⟨c, rest.takeWhile isIdentChar, ?_, start, List.all_eq_true.mp List.all_takeWhile, ?_⟩
  · simp [is_ident_char_of_start c start]
  · intro minus
    cases rest with
    | nil => cases more minus
    | cons next rest =>
        have member : isIdentChar next = true := more minus
        simp [member]

/-- The kinds of tokens, told apart by the character that they start with. -/
theorem read_at_cases {motive : Char → List Char → Prop}
    (quoted : ∀ quote rest, isQuote quote = true → readAt quote rest = readQuoted quote rest →
      motive quote rest)
    (punctuation : ∀ c rest kind, punctuation? c = some kind →
      readAt c rest = (⟨kind, c.toString⟩, rest) → motive c rest)
    (pair : ∀ c rest pair, pair? c = some pair → readAt c rest = readPair c pair rest →
      motive c rest)
    (sigil : ∀ c rest kind, sigil? c = some kind → readAt c rest = readSigil c kind rest →
      motive c rest)
    (minus : ∀ rest, startsWithIdentChar rest = false →
      readAt '-' rest = (⟨.minus, "-"⟩, rest) → motive '-' rest)
    (name : ∀ c rest, isIdentStart c = true →
      isIdentifier (String.ofList ((c :: rest).takeWhile isIdentChar)) = true →
      readAt c rest = readName (c :: rest) → motive c rest)
    (number : ∀ c rest, c.isDigit = true → readAt c rest = readNumber (c :: rest) →
      motive c rest)
    (illegal : ∀ c rest, isQuote c = false →
      (∀ behind, readAt c behind = (⟨.illegal, c.toString⟩, behind)) → motive c rest)
    (c : Char) (rest : List Char) : motive c rest := by
  cases mark : isQuote c with
  | true => exact quoted c rest mark (by simp [readAt, mark])
  | false =>
  cases known : punctuation? c with
  | some kind => exact punctuation c rest kind known (by simp [readAt, mark, known])
  | none =>
  cases paired : pair? c with
  | some both => exact pair c rest both paired (by simp [readAt, mark, known, paired])
  | none =>
  cases named : sigil? c with
  | some kind => exact sigil c rest kind named (by simp [readAt, mark, known, paired, named])
  | none =>
  by_cases lone : c = '-' ∧ startsWithIdentChar rest = false
  · obtain ⟨rfl, none⟩ := lone
    exact minus rest none (read_at_minus rest none)
  · cases start : isIdentStart c with
    | true =>
      have more : c = '-' → startsWithIdentChar rest = true :=
        fun sign => eq_true_of_ne_false fun none => lone ⟨sign, none⟩
      exact name c rest start (identifier_of_start start more) (read_at_name c rest start more)
    | false =>
    cases digit : c.isDigit with
    | true => exact number c rest digit (read_at_number c rest digit)
    | false =>
      have noMinus : c ≠ '-' := by
        rintro rfl
        exact absurd start (by decide)
      exact illegal c rest mark fun behind => by
        simp [readAt, mark, known, paired, named, noMinus, start, digit]

theorem ident_char_of_alphabetic {c : Char} (letter : Text.isAlphabetic c = true) :
    isIdentChar c = true :=
  is_ident_char_of_start c (by simp [isIdentStart, letter])

theorem ident_chars {name : String} (identifier : isIdentifier name = true) :
    ∀ c ∈ name.toList, isIdentChar c = true := by
  obtain ⟨first, others, same, start, member, -⟩ := (is_identifier_iff name).mp identifier
  rw [same]
  exact List.forall_mem_cons.mpr ⟨is_ident_char_of_start first start, member⟩

theorem read_at_identifier {name : String} (identifier : isIdentifier name = true)
    (rest : List Char) :
    ∃ first others, name.toList = first :: others ∧ Text.isBlank first = false ∧
      readAt first (others ++ rest) = readName (name.toList ++ rest) := by
  obtain ⟨first, others, same, start, tail, more⟩ := (is_identifier_iff name).mp identifier
  refine ⟨first, others, same, ?_, ?_⟩
  · exact is_blank_of_is_ident_char first (is_ident_char_of_start first start)
  · rw [same]
    apply read_at_name first (others ++ rest) start
    intro minus
    cases others with
    | nil => exact absurd rfl (more minus)
    | cons second others => exact tail second List.mem_cons_self

theorem Apart.ends {rest : List Char} (apart : Apart rest) :
    startsWithIdentChar rest = false ∧ rest.head? ≠ some '(' := by
  cases rest with
  | nil => exact ⟨rfl, by simp⟩
  | cons c rest => exact ⟨apart.1, by simpa using apart.2.1⟩

theorem spelt_ident {name : String} {rest : List Char} (identifier : isIdentifier name = true)
    (ends : startsWithIdentChar rest = false ∧ rest.head? ≠ some '(') :
    Spelt name.toList ⟨.ident, name⟩ rest := by
  obtain ⟨first, others, same, solid, taken⟩ := read_at_identifier identifier rest
  refine ⟨first, others, same, solid, ?_⟩
  rw [taken, read_name_ident (ident_chars identifier) ends.1 ends.2, String.ofList_toList]

theorem spelt_function {name : String} (identifier : isIdentifier name = true)
    (rest : List Char) : Spelt (name.toList ++ ['(']) ⟨.function, name⟩ rest := by
  obtain ⟨first, others, same, solid, taken⟩ := read_at_identifier identifier ('(' :: rest)
  refine ⟨first, others ++ ['('], by rw [same, List.cons_append], solid, ?_⟩
  rw [List.append_assoc, List.singleton_append, taken,
    read_name_function (ident_chars identifier), String.ofList_toList]

theorem spelt_sigil {mark : Char} {kind : TokenKind} (known : sigil? mark = some kind)
    {name rest : List Char} (letter : ∀ c ∈ name.head?, Text.isAlphabetic c = true)
    (filled : name ≠ []) (member : ∀ c ∈ name, isIdentChar c = true)
    (ends : ∀ c ∈ rest.head?, isIdentChar c = false) :
    Spelt (mark :: name) ⟨kind, String.ofList name⟩ rest := by
  obtain ⟨taken, left⟩ := span_stopped member ends
  have dispatch : Text.isBlank mark = false ∧
      readAt mark (name ++ rest) = readSigil mark kind (name ++ rest) := by
    unfold sigil? at known
    split at known <;> cases known <;> exact ⟨by decide, rfl⟩
  refine ⟨mark, name, rfl, dispatch.1, dispatch.2.trans ?_⟩
  cases name with
  | nil => exact absurd rfl filled
  | cons first others =>
    rw [List.cons_append] at taken left ⊢
    simp only [readSigil, letter first rfl, if_true, taken, left]

/-- A name that may stand behind `#`: it starts with a letter. -/
def isHashName (name : String) : Bool :=
  match name.toList with
  | [] => false
  | first :: others => Text.isAlphabetic first && others.all isIdentChar

theorem spelt_hash {name : String} {rest : List Char} (named : isHashName name = true)
    (apart : Apart rest) : Spelt ('#' :: name.toList) ⟨.hash, name⟩ rest := by
  unfold isHashName at named
  split at named
  · cases named
  · next first others same =>
    rw [Bool.and_eq_true, List.all_eq_true] at named
    have member : ∀ c ∈ name.toList, isIdentChar c = true :=
      same ▸ List.forall_mem_cons.mpr ⟨ident_char_of_alphabetic named.1, named.2⟩
    have spelt := @spelt_sigil '#' .hash rfl name.toList rest (by simp [same, named.1])
      (by simp [same]) member ((starts_with_ident_char_iff rest).mp apart.ends.1)
    rwa [String.ofList_toList] at spelt

theorem spelt_punctuation {c : Char} {kind : TokenKind} (known : punctuation? c = some kind)
    (rest : List Char) : Spelt [c] ⟨kind, c.toString⟩ rest := by
  have plain : isQuote c = false ∧ Text.isBlank c = false := by
    unfold punctuation? at known
    split at known <;> first | exact ⟨by decide, by decide⟩ | cases known
  refine ⟨c, [], rfl, plain.2, ?_⟩
  simp only [readAt, plain.1, known, List.nil_append, Bool.false_eq_true, if_false]

theorem pair_plain {c : Char} {pair : Pair} (known : pair? c = some pair) :
    isQuote c = false ∧ punctuation? c = none ∧ Text.isBlank c = false := by
  unfold pair? at known
  split at known <;> first | exact ⟨by decide, by decide, by decide⟩ | cases known

theorem spelt_together {c : Char} {pair : Pair} (known : pair? c = some pair)
    (rest : List Char) :
    Spelt [c, pair.second] ⟨pair.together, String.ofList [c, pair.second]⟩ rest := by
  obtain ⟨noQuote, noMark, solid⟩ := pair_plain known
  refine ⟨c, [pair.second], rfl, solid, ?_⟩
  simp only [readAt, noQuote, noMark, known, readPair, List.cons_append, List.nil_append,
    Bool.false_eq_true, if_false, if_true]

theorem spelt_alone {c : Char} {pair : Pair} (known : pair? c = some pair)
    {rest : List Char} (apart : rest.head? ≠ some pair.second) :
    Spelt [c] ⟨pair.alone, c.toString⟩ rest := by
  obtain ⟨noQuote, noMark, solid⟩ := pair_plain known
  refine ⟨c, [], rfl, solid, ?_⟩
  simp only [readAt, noQuote, noMark, known, List.nil_append, Bool.false_eq_true, if_false]
  cases rest with
  | nil => rfl
  | cons next rest =>
    have other : ¬ next = pair.second := by simpa using apart
    simp only [readPair, if_neg other]

theorem spelt_string {quote : Char} {value : String} (mark : isQuote quote = true)
    (absent : quote ∉ value.toList) (rest : List Char) :
    Spelt (quote :: (value.toList ++ [quote])) ⟨.string, value⟩ rest := by
  have inside : ∀ c ∈ value.toList, (c != quote) = true := by
    intro c member
    rw [bne_iff_ne]
    rintro rfl
    exact absent member
  have closes : ¬ (quote != quote) = true := by simp
  refine ⟨quote, value.toList ++ [quote], rfl, ?_, ?_⟩
  · simp only [isQuote, Bool.or_eq_true, beq_iff_eq] at mark
    rcases mark with rfl | rfl <;> decide
  · simp only [readAt, mark, if_true, readQuoted, List.append_assoc, List.singleton_append]
    rw [List.dropWhile_append_of_pos inside, List.takeWhile_append_of_pos inside]
    simp only [List.dropWhile_cons, List.takeWhile_cons, if_neg closes, List.append_nil,
      String.ofList_toList]

/-! Texts of letters, digits and signs, as arguments are made of. -/

/-- Tokens whose literal is all of their spelling, and may stand in an argument. -/
def Bare (kind : TokenKind) : Prop :=
  kind = .ident ∨ kind = .number ∨ kind = .plus ∨ kind = .minus

theorem span_stop (keep : Char → Bool) (text : List Char) {stop : Char} (rest : List Char)
    (stops : keep stop = false) :
    (text ++ stop :: rest).takeWhile keep = text.takeWhile keep ∧
      (text ++ stop :: rest).dropWhile keep = text.dropWhile keep ++ stop :: rest := by
  induction text with
  | nil => simp [stops]
  | cons c text ih =>
    cases kept : keep c with
    | false => simp [kept]
    | true => simp [kept, ih.1, ih.2]

theorem read_name_bare (text rest : List Char) (plain : ∀ c ∈ text, c ≠ '(') :
    readName (text ++ ')' :: rest) =
      (⟨.ident, String.ofList (text.takeWhile isIdentChar)⟩,
        text.dropWhile isIdentChar ++ ')' :: rest) := by
  obtain ⟨taken, left⟩ := span_stop isIdentChar text rest (show isIdentChar ')' = false by decide)
  simp only [readName, taken, left]
  split
  · next after found =>
    have member : '(' ∈ text.dropWhile isIdentChar := by
      cases others : text.dropWhile isIdentChar with
      | nil => simp [others] at found
      | cons c others =>
        simp only [others, List.cons_append, List.cons.injEq] at found
        simp [found.1]
    exact absurd rfl (plain '(' ((List.dropWhile_sublist isIdentChar).subset member))
  · rfl

/-- A letter, a digit or a sign is a token by itself, or it begins a name or a number. -/
theorem read_at_plain {c : Char} (part : isIdentChar c = true ∨ c = '+') (rest : List Char) :
    (∃ kind, Bare kind ∧ readAt c rest = (⟨kind, String.ofList [c]⟩, rest)) ∨
      isIdentChar c = true ∧ readAt c rest = readName (c :: rest) ∨
      c.isDigit = true ∧ readAt c rest = readNumber (c :: rest) := by
  rcases part with member | rfl
  · cases start : isIdentStart c with
    | true =>
      -- A minus sign begins a name where more of one follows, and is a token otherwise.
      by_cases lone : c = '-' ∧ startsWithIdentChar rest = false
      · obtain ⟨rfl, none⟩ := lone
        exact .inl ⟨.minus, .inr (.inr (.inr rfl)), read_at_minus rest none⟩
      · have more : c = '-' → startsWithIdentChar rest = true :=
          fun minus => eq_true_of_ne_false fun none => lone ⟨minus, none⟩
        exact .inr (.inl ⟨member, read_at_name c rest start more⟩)
    | false =>
      have digit : c.isDigit = true := by simpa [isIdentChar, start] using member
      exact .inr (.inr ⟨digit, read_at_number c rest digit⟩)
  · exact .inl ⟨.plus, .inr (.inr (.inl rfl)), rfl⟩

/-- The first token of such a text takes at least its first character. -/
theorem read_bare (c : Char) (text rest : List Char)
    (plain : ∀ d ∈ c :: text, isIdentChar d = true ∨ d = '+') :
    ∃ kind piece others, c :: text = piece ++ others ∧ piece ≠ [] ∧ Bare kind ∧
      Lexeme.read (c :: text ++ ')' :: rest) =
        (⟨false, ⟨kind, String.ofList piece⟩⟩, others ++ ')' :: rest) := by
  have noCall : ∀ d ∈ c :: text, d ≠ '(' := by
    rintro d member rfl
    exact absurd (plain '(' member) (by decide)
  have solid : Text.isBlank c = false := by
    rcases plain c List.mem_cons_self with member | rfl
    · exact is_blank_of_is_ident_char c member
    · decide
  have here : ∀ token others, readAt c (text ++ ')' :: rest) = (token, others) →
      Lexeme.read (c :: text ++ ')' :: rest) = (⟨false, token⟩, others) := by
    intro token others taken
    simp [Lexeme.read, read, startsBlank, solid, taken]
  rcases read_at_plain (plain c List.mem_cons_self) (text ++ ')' :: rest) with
    ⟨kind, bare, alone⟩ | ⟨member, name⟩ | ⟨digit, number⟩
  · exact ⟨kind, [c], text, rfl, by simp, bare, here _ _ alone⟩
  · rw [← List.cons_append, read_name_bare (c :: text) rest noCall] at name
    refine ⟨.ident, _, _, (List.takeWhile_append_dropWhile).symm, ?_, .inl rfl, here _ _ name⟩
    simp [member]
  · obtain ⟨taken, left⟩ :=
      span_stop Char.isDigit (c :: text) rest (show Char.isDigit ')' = false by decide)
    rw [← List.cons_append, readNumber, taken, left] at number
    refine ⟨.number, _, _, (List.takeWhile_append_dropWhile).symm, ?_, .inr (.inl rfl),
      here _ _ number⟩
    simp [digit]

/-- Without a parenthesis behind it, no name is called. -/
theorem bare_of_read_at {c : Char} {rest left : List Char} {token : Token}
    (part : isIdentChar c = true ∨ c = '+') (noCall : '(' ∉ c :: rest)
    (taken : readAt c rest = (token, left)) : Bare token.kind := by
  rcases read_at_plain part rest with ⟨kind, bare, alone⟩ | ⟨-, name⟩ | ⟨-, number⟩
  · rw [alone] at taken
    cases taken
    exact bare
  · rw [name] at taken
    simp only [readName] at taken
    split at taken
    · next after found =>
      have member : '(' ∈ (c :: rest).dropWhile isIdentChar := by simp [found]
      exact absurd ((List.dropWhile_sublist isIdentChar).subset member) noCall
    · cases taken
      exact .inl rfl
  · rw [number] at taken
    cases taken
    exact .inr (.inl rfl)

theorem bare_no_end {kind : TokenKind} (bare : Bare kind) (literal : String) :
    isEnd ⟨kind, literal⟩ = false := by
  rcases bare with rfl | rfl | rfl | rfl <;> rfl

theorem scans_bare (text rest : List Char)
    (plain : ∀ c ∈ text, isIdentChar c = true ∨ c = '+') :
    ∃ inside, Scans (text ++ ')' :: rest) inside (')' :: rest) ∧
      (∀ lexeme ∈ inside, lexeme.spaced = false ∧ Bare lexeme.token.kind) ∧
      inside.flatMap (fun lexeme => lexeme.token.literal.toList) = text := by
  -- A token may take several characters, so the induction is on a bound of the length.
  obtain ⟨size, bound⟩ : ∃ size, text.length ≤ size := ⟨_, Nat.le_refl _⟩
  induction size generalizing text with
  | zero =>
    obtain rfl := List.length_eq_zero_iff.mp (Nat.le_zero.mp bound)
    exact ⟨[], .done, by simp, rfl⟩
  | succ size ih =>
    cases text with
    | nil => exact ⟨[], .done, by simp, rfl⟩
    | cons c text =>
      obtain ⟨kind, piece, others, whole, filled, bare, taken⟩ := read_bare c text rest plain
      have shorter : others.length ≤ size := by
        have pieces := congrArg List.length whole
        have := List.length_pos_iff.mpr filled
        simp only [List.length_append, List.length_cons] at pieces bound
        omega
      obtain ⟨inside, scan, others', same⟩ := ih others
        (fun d member => plain d (whole ▸ List.mem_append_right piece member)) shorter
      refine ⟨⟨false, ⟨kind, String.ofList piece⟩⟩ :: inside, ?_,
        List.forall_mem_cons.mpr ⟨⟨rfl, bare⟩, others'⟩, ?_⟩
      · have step := @Scans.more (c :: text ++ ')' :: rest) (')' :: rest) inside
        have token := congrArg Lexeme.token (congrArg Prod.fst taken)
        have left := congrArg Prod.snd taken
        simp only [Lexeme.read] at token left
        rw [token, left, taken] at step
        exact step (bare_no_end bare _) scan
      · rw [List.flatMap_cons, same, String.toList_ofList, whole]

end Token
end TreeSelect
