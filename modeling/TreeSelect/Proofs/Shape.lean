import TreeSelect.Proofs.Arguments
import TreeSelect.Proofs.Grammar

/-!
The shape of what is parsed. The types of selectors allow far more than a text can mean;
`Selector.Shaped` keeps what a derivation over the lexemes of a text can end in. That every
shaped selector is the meaning of a text is a matter of printing and settled there.
-/

namespace TreeSelect

namespace Token

/-- The literal is one that a token of its kind is read with. -/
def Genuine (token : Token) : Prop :=
  match token.kind with
  | .ident => isIdentifier token.literal = true
  | .function => isIdentifier token.literal = true
  | .hash => isHashName token.literal = true
  | .string => Quotable token.literal
  | _ => True

theorem genuine_quoted {quote : Char} (mark : isQuote quote = true) (rest : List Char) :
    (readQuoted quote rest).1.Genuine := by
  unfold readQuoted
  split
  · exact True.intro
  · -- The literal stops at the first quote of its own kind, and there are only two kinds.
    have absent : quote ∉ rest.takeWhile (· != quote) := by
      intro member
      have other := List.all_eq_true.mp List.all_takeWhile quote member
      simp at other
    show Quotable (String.ofList (rest.takeWhile (· != quote)))
    rintro ⟨double, single⟩
    rw [String.toList_ofList] at double single
    simp only [isQuote, Bool.or_eq_true, beq_iff_eq] at mark
    rcases mark with rfl | rfl
    · exact absent double
    · exact absent single

theorem genuine_punctuation {c : Char} {kind : TokenKind} (known : punctuation? c = some kind)
    (literal : String) : Genuine ⟨kind, literal⟩ := by
  unfold punctuation? at known
  split at known <;> cases known <;> exact True.intro

theorem genuine_pair {c : Char} {pair : Pair} (known : pair? c = some pair) (rest : List Char) :
    (readPair c pair rest).1.Genuine := by
  have kinds : ∀ literal, Genuine ⟨pair.together, literal⟩ ∧ Genuine ⟨pair.alone, literal⟩ := by
    intro literal
    unfold pair? at known
    split at known <;> cases known <;> exact ⟨True.intro, True.intro⟩
  cases rest with
  | nil => exact (kinds _).2
  | cons next rest =>
      simp only [readPair]
      split
      · exact (kinds _).1
      · exact (kinds _).2

theorem genuine_sigil {c : Char} {kind : TokenKind} (known : sigil? c = some kind)
    (rest : List Char) : (readSigil c kind rest).1.Genuine := by
  cases rest with
  | nil => exact True.intro
  | cons first rest =>
      simp only [readSigil]
      split
      · next letter =>
        have member : isIdentChar first = true := by simp [isIdentChar, isIdentStart, letter]
        have named : isHashName (String.ofList ((first :: rest).takeWhile isIdentChar)) = true := by
          simp only [isHashName, List.takeWhile_cons, member, if_true, String.toList_ofList,
            letter, Bool.true_and, List.all_takeWhile]
        unfold sigil? at known
        split at known <;> cases known
        · exact named
        · exact True.intro
      · exact True.intro

theorem genuine_name {text : List Char}
    (identifier : isIdentifier (String.ofList (text.takeWhile isIdentChar)) = true) :
    (readName text).1.Genuine := by
  simp only [readName]
  split <;> exact identifier

theorem genuine_at (c : Char) (rest : List Char) : (readAt c rest).1.Genuine := by
  induction c, rest using read_at_cases with
  | quoted quote rest mark read => exact read ▸ genuine_quoted mark rest
  | punctuation c rest kind known read => exact read ▸ genuine_punctuation known _
  | pair c rest pair known read => exact read ▸ genuine_pair known rest
  | sigil c rest kind known read => exact read ▸ genuine_sigil known rest
  | minus rest none read => exact read ▸ True.intro
  | name c rest start identifier read => exact read ▸ genuine_name identifier
  | number c rest digit read => exact read ▸ True.intro
  | illegal c rest plain read => exact read rest ▸ True.intro

theorem genuine_read (text : List Char) : (read text).1.Genuine := by
  unfold read
  split
  · exact True.intro
  · exact genuine_at _ _

end Token

def AllGenuine (lexemes : List Lexeme) : Prop := ∀ lexeme ∈ lexemes, lexeme.token.Genuine

theorem lexemes_genuine (text : List Char) : AllGenuine (lexemes text) := by
  fun_induction lexemes text with
  | case1 text next more ih => exact List.forall_mem_cons.mpr ⟨Token.genuine_read text, ih⟩
  | case2 text next last => exact List.forall_mem_singleton.mpr (Token.genuine_read text)

/-! The shape itself. A group is no alternative of a group, and a chain is nested to the left. -/

def Selector.isGroup : Selector → Bool
  | .group _ => true
  | _ => false

def Selector.isCompound : Selector → Bool
  | .compound _ _ => true
  | _ => false

/-- A value is compared with exactly where there is an operator to compare by. -/
def AttributeTest.Shaped (test : AttributeTest) : Prop :=
  isIdentifier test.name = true ∧ (test.value = none ↔ test.operator = .present) ∧
    ∀ value ∈ test.value, Quotable value

def Base.Shaped : Base → Prop
  | .type name => isIdentifier name = true
  | .universal => True

mutual
def Selector.Shaped : Selector → Prop
  | .group alternatives => 2 ≤ alternatives.length ∧ ShapedAlternatives alternatives
  | .joined left _ right =>
      (left.isGroup = false ∧ left.Shaped) ∧ right.isCompound = true ∧ right.Shaped
  | .compound base filters =>
      (base ≠ none ∨ filters ≠ []) ∧ (∀ known ∈ base, known.Shaped) ∧ ShapedFilters filters

def Simple.Shaped : Simple → Prop
  | .cls name => isIdentifier name = true
  | .hash name => Token.isHashName name = true
  | .attribute test => test.Shaped
  | .pseudo name _ => isIdentifier name = true
  | .functional name argument =>
      isIdentifier name = true ∧ Text.sameName name "not" = false ∧
        Text.sameName name "has" = false ∧ argument.Shaped
  | .notOne item => item.Shaped
  | .notAny items => 2 ≤ items.length ∧ ShapedItems items
  | .has combinator argument => combinator ≠ some .descendant ∧ argument.Shaped

def Negatable.Shaped : Negatable → Prop
  | .type name => isIdentifier name = true
  | .universal => True
  | .simple test => Grammar.MayBeNegated test ∧ test.Shaped

def ShapedAlternatives : List Selector → Prop
  | [] => True
  | first :: rest => (first.isGroup = false ∧ first.Shaped) ∧ ShapedAlternatives rest

def ShapedFilters : List Simple → Prop
  | [] => True
  | first :: rest => first.Shaped ∧ ShapedFilters rest

def ShapedItems : List Negatable → Prop
  | [] => True
  | first :: rest => first.Shaped ∧ ShapedItems rest
end

/-! Every derivation over genuine tokens ends in a shaped tree. -/

namespace Token.Genuine

theorem ident {token : Token} (genuine : token.Genuine) (kind : token.kind = .ident) :
    isIdentifier token.literal = true := by
  simpa only [Token.Genuine, kind] using genuine

theorem hash {token : Token} (genuine : token.Genuine) (kind : token.kind = .hash) :
    Token.isHashName token.literal = true := by
  simpa only [Token.Genuine, kind] using genuine

theorem string {token : Token} (genuine : token.Genuine) (kind : token.kind = .string) :
    Quotable token.literal := by
  simpa only [Token.Genuine, kind] using genuine

end Token.Genuine

namespace AllGenuine

theorem head {first : Lexeme} {rest : List Lexeme} (genuine : AllGenuine (first :: rest)) :
    first.token.Genuine :=
  genuine first List.mem_cons_self

theorem tail {first : Lexeme} {rest : List Lexeme} (genuine : AllGenuine (first :: rest)) :
    AllGenuine rest :=
  fun lexeme member => genuine lexeme (List.mem_cons_of_mem first member)

theorem left {front back : List Lexeme} (genuine : AllGenuine (front ++ back)) :
    AllGenuine front :=
  fun lexeme member => genuine lexeme (List.mem_append_left back member)

theorem right {front back : List Lexeme} (genuine : AllGenuine (front ++ back)) :
    AllGenuine back :=
  fun lexeme member => genuine lexeme (List.mem_append_right front member)

end AllGenuine

theorem quotable_identifier {name : String} (identifier : isIdentifier name = true) :
    Quotable name := by
  rintro ⟨double, -⟩
  exact absurd (Token.ident_chars identifier _ double) (by decide)

namespace Grammar

theorem compares_no_present {kind : TokenKind} {operator : AttributeOperator}
    (compares : Compares kind operator) : operator ≠ .present := by
  cases compares <;> decide

theorem attribute_shaped {lexemes : List Lexeme} {test : AttributeTest}
    (derived : Attribute lexemes test) (genuine : AllGenuine lexemes) : test.Shaped := by
  cases derived with
  | present left name right =>
      have named := genuine.tail.head.ident name
      exact ⟨named, by simp, by simp⟩
  | @compared _ _ _ value _ _ left name compares kind right =>
      have named := genuine.tail.head.ident name
      have found := genuine.tail.tail.tail.head
      have quotable : Quotable value.token.literal := by
        rcases kind with ident | string
        · exact quotable_identifier (found.ident ident)
        · exact found.string string
      exact ⟨named, by simpa using compares_no_present compares, by simpa using quotable⟩

theorem argument_shaped {lexemes : List Lexeme} {argument : Argument}
    (derived : ArgumentOf lexemes argument) (genuine : AllGenuine lexemes) :
    argument.Shaped := by
  cases derived with
  | quoted kind => exact genuine.head.string kind
  | bare plain found => exact Argument.classify_shaped found

theorem call_genuine {name : String} {inside lexemes : List Lexeme}
    (call : Call name inside lexemes) (genuine : AllGenuine lexemes) :
    isIdentifier name = true ∧ AllGenuine inside := by
  cases call with
  | mk mark function spaced close =>
      have named := genuine.tail.head
      rw [function] at named
      exact ⟨named, genuine.tail.tail.left⟩

theorem joins_no_descendant {kind : TokenKind} {combinator : Combinator}
    (joins : Joins kind combinator) : combinator ≠ .descendant := by
  cases joins <;> decide

theorem lead_no_descendant {lexemes : List Lexeme} {combinator : Option Combinator}
    (lead : Lead lexemes combinator) : combinator ≠ some .descendant := by
  cases lead with
  | none => simp
  | some joins => simpa using joins_no_descendant joins

theorem compound_no_group {selector : Selector} (compound : selector.isCompound = true) :
    selector.isGroup = false := by
  cases selector with
  | group alternatives => cases compound
  | joined left combinator right => rfl
  | compound base filters => rfl

theorem base_shaped (base : Base) (shaped : base.Shaped) :
    ∀ known ∈ some base, known.Shaped := by
  intro known same
  rwa [← Option.some.inj same]

theorem negation_shaped {item : Negatable} {items : List Negatable} (first : item.Shaped)
    (others : ShapedItems items) : (negation item items).Shaped := by
  cases items with
  | nil => exact first
  | cons second items => exact ⟨by simp, first, others⟩

theorem alternatives_shaped {first : Selector} {rest : List Selector}
    (here : first.isGroup = false ∧ first.Shaped) (others : ShapedAlternatives rest) :
    (alternatives first rest).Shaped := by
  cases rest with
  | nil => exact here.2
  | cons second rest => exact ⟨by simp, here, others⟩

mutual
theorem single_shaped {lexemes : List Lexeme} {test : Simple} :
    Single lexemes test → AllGenuine lexemes → test.Shaped
  | .hash name, genuine => genuine.head.hash name
  | .cls _ name _, genuine => genuine.tail.head.ident name
  | .pseudoElement _ name _, genuine => genuine.tail.head.ident name
  | .pseudoClass _ name _, genuine => genuine.tail.head.ident name
  | .bracketed test, genuine => attribute_shaped test genuine
  | .functional call noNot noHas argument, genuine =>
      have ⟨named, inside⟩ := call_genuine call genuine
      ⟨named, noNot, noHas, argument_shaped argument inside⟩
  | .negation call _ first others, genuine =>
      have inside := (call_genuine call genuine).2
      negation_shaped (negated_shaped first inside.left) (negated_rest_shaped others inside.right)
  | .has call _ lead argument, genuine =>
      have inside := (call_genuine call genuine).2
      ⟨lead_no_descendant lead, listing_shaped argument inside.right⟩

theorem negated_shaped {lexemes : List Lexeme} {item : Negatable} :
    Negated lexemes item → AllGenuine lexemes → item.Shaped
  | .type name, genuine => genuine.head.ident name
  | .universal _, _ => True.intro
  | .simple single allowed, genuine => ⟨allowed, single_shaped single genuine⟩

theorem negated_rest_shaped {lexemes : List Lexeme} {items : List Negatable} :
    NegatedRest lexemes items → AllGenuine lexemes → ShapedItems items
  | .none, _ => True.intro
  | .more _ first others, genuine =>
      ⟨negated_shaped first genuine.tail.left, negated_rest_shaped others genuine.tail.right⟩

theorem filters_shaped {lexemes : List Lexeme} {tests : List Simple} :
    Filters lexemes tests → AllGenuine lexemes → ShapedFilters tests
  | .none, _ => True.intro
  | .more _ first others, genuine =>
      have whole := List.cons_append ▸ genuine
      ⟨single_shaped first whole.left, filters_shaped others whole.right⟩

theorem compound_shaped {lexemes : List Lexeme} {selector : Selector} :
    Compound lexemes selector → AllGenuine lexemes →
      selector.isCompound = true ∧ selector.Shaped
  | .type name filters, genuine =>
      have base := base_shaped (.type _) (genuine.head.ident name)
      ⟨rfl, by simp, base, filters_shaped filters genuine.tail⟩
  | .universal _ filters, genuine =>
      have base := base_shaped .universal True.intro
      ⟨rfl, by simp, base, filters_shaped filters genuine.tail⟩
  | .bare first filters, genuine =>
      ⟨rfl, by simp, by simp, single_shaped first genuine.left,
        filters_shaped filters genuine.right⟩

/-- The shape of the left side is handed on from joint to joint. -/
theorem chain_rest_shaped {left whole : Selector} {lexemes : List Lexeme} :
    ChainRest left lexemes whole → AllGenuine lexemes →
      left.isGroup = false ∧ left.Shaped → whole.isGroup = false ∧ whole.Shaped
  | .none, _, shaped => shaped
  | .marked _ next others, genuine, shaped =>
      chain_rest_shaped others genuine.tail.right
        ⟨rfl, shaped, compound_shaped next genuine.tail.left⟩
  | .spaced _ next others, genuine, shaped =>
      have whole := List.cons_append ▸ genuine
      chain_rest_shaped others whole.right ⟨rfl, shaped, compound_shaped next whole.left⟩

theorem chain_shaped {lexemes : List Lexeme} {selector : Selector} :
    Chain lexemes selector → AllGenuine lexemes → selector.isGroup = false ∧ selector.Shaped
  | .mk first others, genuine =>
      have start := compound_shaped first genuine.left
      chain_rest_shaped others genuine.right ⟨compound_no_group start.1, start.2⟩

theorem listing_rest_shaped {lexemes : List Lexeme} {rest : List Selector} :
    ListingRest lexemes rest → AllGenuine lexemes → ShapedAlternatives rest
  | .none, _ => True.intro
  | .more _ first others, genuine =>
      ⟨chain_shaped first genuine.tail.left, listing_rest_shaped others genuine.tail.right⟩

theorem listing_shaped {lexemes : List Lexeme} {selector : Selector} :
    Listing lexemes selector → AllGenuine lexemes → selector.Shaped
  | .mk first others, genuine =>
      alternatives_shaped (chain_shaped first genuine.left)
        (listing_rest_shaped others genuine.right)
end

theorem whole_shaped {text : String} {selector : Selector} (whole : Whole text selector) :
    selector.Shaped := by
  obtain ⟨inside, last, same, -, listing⟩ := whole
  have genuine := lexemes_genuine text.toList
  rw [same] at genuine
  exact listing_shaped listing genuine.left

end Grammar
end TreeSelect
