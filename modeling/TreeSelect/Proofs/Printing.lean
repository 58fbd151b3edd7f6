import TreeSelect.Proofs.Recognition
import TreeSelect.Proofs.Shape
import TreeSelect.Selector.Printer

/-!
Shaped selectors are read back from their canonical texts. The text of a phrase is printed
without regard to what stands around it, so every lemma here is about a text between some
white space, or none, and a rest that does not run on into it.
-/

namespace TreeSelect

open Grammar Token

/-! One token after the other. -/

namespace Scans

theorem token {spelling rest final : List Char} {token : Token} {others : List Lexeme}
    (spelt : Spelt spelling token rest) (more : token.isEnd = false)
    (after : Scans rest others final) (spaced : Bool) :
    Scans (gap spaced ++ (spelling ++ rest)) (⟨spaced, token⟩ :: others) final :=
  (spelt.scans more spaced).append after

theorem unspaced {spelling rest final : List Char} {token : Token} {others : List Lexeme}
    (spelt : Spelt spelling token rest) (more : token.isEnd = false)
    (after : Scans rest others final) :
    Scans (spelling ++ rest) (⟨false, token⟩ :: others) final :=
  Scans.token spelt more after false

end Scans

/-- Before a rest that lengthens no name the text is read as a phrase, whether or not white
space stands before it. -/
def Prints (text : List Char) (phrase : List Lexeme → Prop) : Prop :=
  ∀ rest, Apart rest → ∀ spaced, ∃ token others,
    Scans (gap spaced ++ (text ++ rest)) (⟨spaced, token⟩ :: others) rest ∧
      phrase (⟨spaced, token⟩ :: others)

theorem Prints.mono {text : List Char} {phrase wider : List Lexeme → Prop}
    (printed : Prints text phrase) (weaken : ∀ {lexemes}, phrase lexemes → wider lexemes) :
    Prints text wider := by
  intro rest apart spaced
  obtain ⟨token, others, scan, derived⟩ := printed rest apart spaced
  exact ⟨token, others, scan, weaken derived⟩

theorem apart_cons {c : Char} {rest : List Char}
    (other : isIdentChar c = false ∧ c ≠ '(' ∧ c ≠ '=') : Apart (c :: rest) := other

theorem identifier_head {name : String} (identifier : isIdentifier name = true) {mark : Char}
    (other : isIdentChar mark = false) (rest : List Char) :
    (name.toList ++ rest).head? ≠ some mark := by
  obtain ⟨first, others, same, start, -, -⟩ := (is_identifier_iff name).mp identifier
  rw [same, List.cons_append, List.head?_cons]
  intro equal
  obtain rfl := Option.some.inj equal
  rw [is_ident_char_of_start first start] at other
  cases other

theorem spelt_colon {name : String} (identifier : isIdentifier name = true) (rest : List Char) :
    Spelt [':'] ⟨.colon, ":"⟩ (name.toList ++ rest) :=
  @spelt_alone ':' ⟨':', .doubleColon, .colon⟩ rfl _
    (identifier_head identifier (by decide) rest)

theorem spelt_star {rest : List Char} (apart : Apart rest) :
    Spelt ['*'] ⟨.asterisk, "*"⟩ rest := by
  apply @spelt_alone '*' ⟨'=', .substringMatch, .asterisk⟩ rfl
  cases rest with
  | nil => simp
  | cons c rest => simpa using apart.2.2

/-! Attributes. -/

theorem quoted_spelt {value : String} (quotable : Quotable value) (rest : List Char) :
    Spelt (quoted value).toList ⟨.string, value⟩ rest := by
  unfold quoted
  split
  · next double =>
    have absent : '\'' ∉ value.toList := fun single => quotable ⟨by simpa using double, single⟩
    simpa [String.toList_append] using @spelt_string '\'' value (by decide) absent rest
  · next double =>
    have absent : '"' ∉ value.toList := by simpa using double
    simpa [String.toList_append] using @spelt_string '"' value (by decide) absent rest

/-- A value is written as one token before a bracket, an identifier or a string. -/
theorem value_spelt {value : String} (quotable : Quotable value) (rest : List Char) :
    ∃ kind, (kind = .ident ∨ kind = .string) ∧
      Spelt (bareOrQuoted value).toList ⟨kind, value⟩ (']' :: rest) := by
  unfold bareOrQuoted
  split
  · next identifier =>
    exact ⟨.ident, .inl rfl, spelt_ident identifier ⟨rfl, by simp⟩⟩
  · exact ⟨.string, .inr rfl, quoted_spelt quotable _⟩

/-- Every operator but the missing one is a token of its own, whatever stands behind it. -/
theorem operator_spelt {operator : AttributeOperator} (compared : operator ≠ .present)
    (rest : List Char) :
    ∃ kind, Compares kind operator ∧
      Spelt operator.symbol.toList ⟨kind, operator.symbol⟩ rest := by
  have pair : ∀ (c : Char) (pair : Pair), pair? c = some pair →
      Spelt [c, pair.second] ⟨pair.together, String.ofList [c, pair.second]⟩ rest :=
    fun c pair known => spelt_together known rest
  cases operator with
  | present => exact absurd rfl compared
  | equals => exact ⟨_, .equals, @spelt_punctuation '=' .equals rfl rest⟩
  | includes => exact ⟨_, .includes, pair '~' _ rfl⟩
  | dashMatch => exact ⟨_, .dashMatch, pair '|' _ rfl⟩
  | prefixMatch => exact ⟨_, .prefixMatch, pair '^' _ rfl⟩
  | suffixMatch => exact ⟨_, .suffixMatch, pair '$' _ rfl⟩
  | substringMatch => exact ⟨_, .substringMatch, pair '*' _ rfl⟩

theorem operator_ends {operator : AttributeOperator} (compared : operator ≠ .present)
    (rest : List Char) :
    startsWithIdentChar (operator.symbol.toList ++ rest) = false ∧
      (operator.symbol.toList ++ rest).head? ≠ some '(' := by
  cases operator with
  | present => exact absurd rfl compared
  | equals => exact ⟨rfl, by simp [AttributeOperator.symbol]⟩
  | includes => exact ⟨rfl, by simp [AttributeOperator.symbol]⟩
  | dashMatch => exact ⟨rfl, by simp [AttributeOperator.symbol]⟩
  | prefixMatch => exact ⟨rfl, by simp [AttributeOperator.symbol]⟩
  | suffixMatch => exact ⟨rfl, by simp [AttributeOperator.symbol]⟩
  | substringMatch => exact ⟨rfl, by simp [AttributeOperator.symbol]⟩

theorem compares_more {kind : TokenKind} {operator : AttributeOperator} {literal : String}
    (compares : Compares kind operator) : isEnd ⟨kind, literal⟩ = false := by
  cases compares <;> rfl

theorem attribute_prints {test : AttributeTest} (shaped : test.Shaped) :
    Prints test.text.toList (Attribute · test) := by
  obtain ⟨name, operator, value⟩ := test
  obtain ⟨named, agrees, quotable⟩ := shaped
  intro rest _ spaced
  -- Each token is spelt before a known rest, so they are put together from the last one.
  have right := (@spelt_punctuation ']' .rightBracket rfl rest).scans rfl false
  cases value with
  | none =>
      obtain rfl : operator = .present := agrees.mp rfl
      have name' := Scans.unspaced (@spelt_ident name (']' :: rest) named ⟨rfl, by simp⟩)
        rfl right
      have whole := Scans.token (@spelt_punctuation '[' .leftBracket rfl _) rfl name' spaced
      have phrase : Attribute [⟨spaced, .leftBracket, '['.toString⟩, ⟨false, .ident, name⟩,
          ⟨false, .rightBracket, ']'.toString⟩] ⟨name, .present, none⟩ := .present rfl rfl rfl
      refine ⟨_, _, ?_, phrase⟩
      simpa [AttributeTest.text, AttributeOperator.symbol] using whole
  | some value =>
      have compared : operator ≠ .present := fun present => by cases agrees.mpr present
      obtain ⟨kind, sort, value'⟩ := value_spelt (quotable value rfl) rest
      have more : isEnd ⟨kind, value⟩ = false := by rcases sort with rfl | rfl <;> rfl
      have value' := Scans.unspaced value' more right
      obtain ⟨mark, compares, operator'⟩ :=
        operator_spelt compared ((bareOrQuoted value).toList ++ ']' :: rest)
      have operator' := Scans.unspaced operator' (compares_more compares) value'
      have name' := Scans.unspaced
        (spelt_ident named (operator_ends compared _)) rfl operator'
      have whole := Scans.token (@spelt_punctuation '[' .leftBracket rfl _) rfl name' spaced
      have phrase : Attribute [⟨spaced, .leftBracket, '['.toString⟩, ⟨false, .ident, name⟩,
          ⟨false, mark, operator.symbol⟩, ⟨false, kind, value⟩,
          ⟨false, .rightBracket, ']'.toString⟩] ⟨name, operator, some value⟩ :=
        .compared rfl rfl compares sort rfl
      refine ⟨_, _, ?_, phrase⟩
      simpa [AttributeTest.text] using whole

/-! Arguments, and the calls around them. -/

theorem argument_text_bare {inside : List Lexeme}
    (bare : ∀ lexeme ∈ inside, lexeme.spaced = false ∧ Bare lexeme.token.kind) :
    (argumentText inside).toList =
      inside.flatMap fun lexeme => lexeme.token.literal.toList := by
  have plain {lexeme : Lexeme} (kind : Bare lexeme.token.kind) :
      lexeme.token.spelling = lexeme.token.literal := by
    rcases kind with kind | kind | kind | kind <;> simp [spelling, kind]
  induction inside using argumentText.induct with
  | case1 => rfl
  | case2 lexeme =>
      rw [argumentText, plain (bare lexeme List.mem_cons_self).2, List.flatMap_singleton]
  | case3 first second rest ih =>
      obtain ⟨here, later⟩ := List.forall_mem_cons.mp bare
      have touching : second.spaced = false := (later second List.mem_cons_self).1
      rw [argumentText, plain here.2, touching, String.toList_append, String.toList_append,
        ih later]
      simp

/-- Before its closing parenthesis a shaped argument is read back from its text. -/
theorem argument_prints {argument : Argument} (shaped : argument.Shaped) (rest : List Char) :
    ∃ inside, Scans (argument.text.toList ++ ')' :: rest) inside (')' :: rest) ∧
      ArgumentOf inside argument := by
  by_cases string : ∃ value, argument = .string value
  · obtain ⟨value, rfl⟩ := string
    have scan := (quoted_spelt shaped (')' :: rest)).scans rfl false
    exact ⟨_, scan, .quoted rfl⟩
  · have unquoted : ∀ value, argument ≠ .string value := fun value same => string ⟨value, same⟩
    obtain ⟨inside, scan, bare, same⟩ :=
      scans_bare argument.text.toList rest (Argument.plain_text shaped unquoted)
    have joined : argumentText inside = argument.text :=
      String.toList_inj.mp ((argument_text_bare bare).trans same)
    refine ⟨inside, scan, .bare ?_ (joined ▸ Argument.classify_text shaped unquoted)⟩
    intro lexeme member
    rcases (bare lexeme member).2 with kind | kind | kind | kind <;> simp [ArgumentToken, kind]

theorem call_prints {name : String} {text rest : List Char} {inside : List Lexeme}
    (identifier : isIdentifier name = true)
    (scan : Scans (text ++ ')' :: rest) inside (')' :: rest)) (spaced : Bool) :
    ∃ token others,
      Scans (gap spaced ++ (':' :: (name.toList ++ '(' :: (text ++ ')' :: rest))))
        (⟨spaced, token⟩ :: others) rest ∧
      Call name inside (⟨spaced, token⟩ :: others) := by
  have close := (@spelt_punctuation ')' .rightParen rfl rest).scans rfl false
  have inside' := scan.append close
  have function := Scans.unspaced (spelt_function identifier _) rfl inside'
  rw [List.append_assoc] at function
  have whole := Scans.token (spelt_colon identifier _) rfl function spaced
  exact ⟨_, _, whole, .mk rfl rfl rfl rfl⟩

theorem combinator_spelt {combinator : Combinator} (marked : combinator ≠ .descendant)
    (rest : List Char) :
    ∃ kind, Joins kind combinator ∧
      Spelt combinator.symbol.toList ⟨kind, combinator.symbol⟩ (' ' :: rest) := by
  cases combinator with
  | descendant => exact absurd rfl marked
  | child => exact ⟨_, .child, @spelt_punctuation '>' .greaterThan rfl _⟩
  | nextSibling => exact ⟨_, .nextSibling, @spelt_punctuation '+' .plus rfl _⟩
  | subsequentSibling =>
      exact ⟨_, .subsequentSibling, @spelt_alone '~' ⟨'=', .includes, .tilde⟩ rfl _ (by simp)⟩

theorem joins_more {kind : TokenKind} {combinator : Combinator} {literal : String}
    (joins : Joins kind combinator) : isEnd ⟨kind, literal⟩ = false := by
  cases joins <;> rfl

/-! Single selectors, given how their parts are printed. -/

theorem hash_prints {name : String} (named : isHashName name = true) :
    Prints (Simple.hash name).text.toList (Single · (.hash name)) := by
  intro rest apart spaced
  have whole := (spelt_hash named apart).scans rfl spaced
  have phrase : Single [⟨spaced, .hash, name⟩] (.hash name) := .hash rfl
  refine ⟨_, _, ?_, phrase⟩
  simpa [Simple.text] using whole

theorem marked_name_prints {spelling : List Char} {mark : Token} {name : String}
    (identifier : isIdentifier name = true) (more : mark.isEnd = false)
    (spelt : ∀ rest, Spelt spelling mark (name.toList ++ rest)) {test : Simple}
    (phrase : ∀ spaced, Single [⟨spaced, mark⟩, ⟨false, .ident, name⟩] test) :
    Prints (spelling ++ name.toList) (Single · test) := by
  intro rest apart spaced
  have name' := (spelt_ident identifier apart.ends).scans rfl false
  have whole := Scans.token (spelt rest) more name' spaced
  refine ⟨_, _, ?_, phrase spaced⟩
  simpa only [List.append_assoc] using whole

theorem cls_prints {name : String} (identifier : isIdentifier name = true) :
    Prints (Simple.cls name).text.toList (Single · (.cls name)) := by
  have spelt : ∀ rest, Spelt ['.'] ⟨.dot, '.'.toString⟩ (name.toList ++ rest) :=
    fun rest => spelt_punctuation rfl _
  have printed := @marked_name_prints _ _ _ identifier rfl spelt (.cls name)
    fun spaced => .cls rfl rfl rfl
  simpa [Simple.text] using printed

theorem pseudo_prints {name : String} (kind : PseudoKind) (identifier : isIdentifier name = true) :
    Prints (Simple.pseudo name kind).text.toList (Single · (.pseudo name kind)) := by
  cases kind with
  | pseudoClass =>
      have printed := @marked_name_prints _ _ _ identifier rfl (spelt_colon identifier)
        (.pseudo name .pseudoClass) fun spaced => .pseudoClass rfl rfl rfl
      simpa [Simple.text, PseudoKind.mark] using printed
  | pseudoElement =>
      have spelt : ∀ rest, Spelt [':', ':'] ⟨.doubleColon, "::"⟩ (name.toList ++ rest) :=
        fun rest => @spelt_together ':' ⟨':', .doubleColon, .colon⟩ rfl _
      have printed := @marked_name_prints _ _ _ identifier rfl spelt
        (.pseudo name .pseudoElement) fun spaced => .pseudoElement rfl rfl rfl
      simpa [Simple.text, PseudoKind.mark] using printed

theorem bracketed_prints {test : AttributeTest} (shaped : test.Shaped) :
    Prints (Simple.attribute test).text.toList (Single · (.attribute test)) :=
  (attribute_prints shaped).mono .bracketed

theorem functional_prints {name : String} {argument : Argument}
    (shaped : (Simple.functional name argument).Shaped) :
    Prints (Simple.functional name argument).text.toList
      (Single · (.functional name argument)) := by
  obtain ⟨identifier, noNot, noHas, fine⟩ := shaped
  intro rest _ spaced
  obtain ⟨inside, scan, derived⟩ := argument_prints fine rest
  obtain ⟨token, others, whole, call⟩ := call_prints identifier scan spaced
  refine ⟨token, others, ?_, .functional call noNot noHas derived⟩
  simpa [Simple.text] using whole

/-- Items behind one another, the first of them without a comma. -/
def Items : List Negatable → List Lexeme → Prop
  | [], _ => False
  | item :: items, lexemes =>
      ∃ front back, lexemes = front ++ back ∧ Negated front item ∧ NegatedRest back items

theorem negation_prints {item : Negatable} {items : List Negatable} {text : List Char}
    (printed : Prints text (Items (item :: items))) {rest : List Char} (spaced : Bool) :
    ∃ token others,
      Scans (gap spaced ++ (":not(".toList ++ (text ++ ')' :: rest)))
        (⟨spaced, token⟩ :: others) rest ∧
      Single (⟨spaced, token⟩ :: others) (negation item items) := by
  obtain ⟨token, others, scan, front, back, same, first, others'⟩ :=
    printed (')' :: rest) (apart_cons (by decide)) false
  rw [same] at scan
  obtain ⟨token, others, whole, call⟩ := @call_prints "not" text rest _ (by decide) scan spaced
  exact ⟨token, others, whole, .negation call (by decide +kernel) first others'⟩

theorem has_prints {combinator : Option Combinator} {argument : Selector}
    (marked : combinator ≠ some .descendant)
    (printed : Prints argument.text.toList (Listing · argument)) :
    Prints (Simple.has combinator argument).text.toList (Single · (.has combinator argument)) := by
  intro rest _ spaced
  have apart : Apart (')' :: rest) := apart_cons (by decide)
  have inside : ∃ lead inside,
      Scans ((hasLead combinator).toList ++ (argument.text.toList ++ ')' :: rest))
        (lead ++ inside) (')' :: rest) ∧ Lead lead combinator ∧ Listing inside argument := by
    cases combinator with
    | none =>
        obtain ⟨token, others, scan, listing⟩ := printed (')' :: rest) apart false
        exact ⟨[], _, scan, .none, listing⟩
    | some combinator =>
        -- Behind its combinator the argument is printed with a space before it.
        have named : combinator ≠ .descendant := fun same => marked (congrArg some same)
        obtain ⟨token, others, scan, listing⟩ := printed (')' :: rest) apart true
        obtain ⟨kind, joins, spelt⟩ :=
          combinator_spelt named (argument.text.toList ++ ')' :: rest)
        have whole := Scans.unspaced spelt (joins_more joins) scan
        refine ⟨[⟨false, kind, combinator.symbol⟩], _, ?_, .some joins, listing⟩
        cases combinator <;> first | exact absurd rfl named | exact whole
  obtain ⟨lead, inside, scan, leads, listing⟩ := inside
  rw [← List.append_assoc] at scan
  obtain ⟨token, others, whole, call⟩ := @call_prints "has" _ rest _ (by decide) scan spaced
  refine ⟨token, others, ?_, .has call (by decide +kernel) leads listing⟩
  simpa [Simple.text] using whole

end TreeSelect
