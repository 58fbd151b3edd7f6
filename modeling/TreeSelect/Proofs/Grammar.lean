import TreeSelect.Selector
import TreeSelect.Token.Lexeme

/-!
The grammar of selectors over lexemes, each of which knows whether white space stood
before it. A derivation relates the lexemes of one phrase to the tree that they mean;
nothing is said here about reading order, budgets or what stands behind a phrase.

White space counts in two places only: it may not stand between the parts of a compound
or behind the marks `.`, `:` and `::`, and where it stands between two compounds it is
itself the descendant combinator.

    list     := chain (',' chain)*
    chain    := compound (combinator compound)*
    compound := (IDENT | '*' | single) single*
    single   := HASH | '.' IDENT | '::' IDENT | ':' IDENT
              | '[' IDENT (operator (IDENT | STRING))? ']'
              | ':' FUNCTION argument ')'
-/

namespace TreeSelect.Grammar

/-- The combinators that have a token of their own. -/
inductive Joins : TokenKind → Combinator → Prop where
  | child : Joins .greaterThan .child
  | nextSibling : Joins .plus .nextSibling
  | subsequentSibling : Joins .tilde .subsequentSibling

inductive Compares : TokenKind → AttributeOperator → Prop where
  | equals : Compares .equals .equals
  | includes : Compares .includes .includes
  | dashMatch : Compares .dashMatch .dashMatch
  | prefixMatch : Compares .prefixMatch .prefixMatch
  | suffixMatch : Compares .suffixMatch .suffixMatch
  | substringMatch : Compares .substringMatch .substringMatch

inductive Attribute : List Lexeme → AttributeTest → Prop where
  | present {left name right : Lexeme} :
      left.token.kind = .leftBracket → name.token.kind = .ident →
      right.token.kind = .rightBracket →
      Attribute [left, name, right] ⟨name.token.literal, .present, none⟩
  | compared {left name mark value right : Lexeme} {operator : AttributeOperator} :
      left.token.kind = .leftBracket → name.token.kind = .ident →
      Compares mark.token.kind operator →
      (value.token.kind = .ident ∨ value.token.kind = .string) →
      right.token.kind = .rightBracket →
      Attribute [left, name, mark, value, right]
        ⟨name.token.literal, operator, some value.token.literal⟩

/-- Tokens that the argument of a function is put together from. -/
def ArgumentToken (kind : TokenKind) : Prop :=
  kind ≠ .leftParen ∧ kind ≠ .rightParen ∧ kind ≠ .function ∧ kind ≠ .eof ∧ kind ≠ .illegal

/-- The text that tokens stand for: each of them as it is spelled, and one space where white space
stood between two of them. -/
def argumentText : List Lexeme → String
  | [] => ""
  | [lexeme] => lexeme.token.spelling
  | first :: second :: rest =>
      first.token.spelling ++ (if second.spaced then " " else "") ++ argumentText (second :: rest)

inductive ArgumentOf : List Lexeme → Argument → Prop where
  | quoted {lexeme : Lexeme} : lexeme.token.kind = .string →
      ArgumentOf [lexeme] (.string lexeme.token.literal)
  | bare {inside : List Lexeme} {argument : Argument} :
      (∀ lexeme ∈ inside, ArgumentToken lexeme.token.kind ∧ lexeme.token.kind ≠ .string) →
      Argument.classify (argumentText inside) = some argument →
      ArgumentOf inside argument

/-- `:name(` … `)`: the frame of a functional pseudo-class around what is inside. -/
inductive Call (name : String) (inside : List Lexeme) : List Lexeme → Prop where
  | mk {mark function close : Lexeme} :
      mark.token.kind = .colon → function.token = ⟨.function, name⟩ →
      function.spaced = false → close.token.kind = .rightParen →
      Call name inside (mark :: function :: (inside ++ [close]))

/-- The combinator that may lead the argument of `:has()`. -/
inductive Lead : List Lexeme → Option Combinator → Prop where
  | none : Lead [] none
  | some {mark : Lexeme} {combinator : Combinator} :
      Joins mark.token.kind combinator → Lead [mark] (some combinator)

/-- All but `:not()` and `:has()` may stand inside `:not()`. -/
def MayBeNegated : Simple → Prop
  | .notOne _ => False
  | .notAny _ => False
  | .has _ _ => False
  | _ => True

/-- A single item stands by itself, several are held together. -/
def negation (first : Negatable) : List Negatable → Simple
  | [] => .notOne first
  | second :: others => .notAny (first :: second :: others)

def alternatives (first : Selector) : List Selector → Selector
  | [] => first
  | second :: others => .group (first :: second :: others)

mutual
inductive Single : List Lexeme → Simple → Prop where
  | hash {name : Lexeme} : name.token.kind = .hash → Single [name] (.hash name.token.literal)
  | cls {mark name : Lexeme} :
      mark.token.kind = .dot → name.token.kind = .ident → name.spaced = false →
      Single [mark, name] (.cls name.token.literal)
  | pseudoElement {mark name : Lexeme} :
      mark.token.kind = .doubleColon → name.token.kind = .ident → name.spaced = false →
      Single [mark, name] (.pseudo name.token.literal .pseudoElement)
  | pseudoClass {mark name : Lexeme} :
      mark.token.kind = .colon → name.token.kind = .ident → name.spaced = false →
      Single [mark, name] (.pseudo name.token.literal .pseudoClass)
  | bracketed {lexemes : List Lexeme} {test : AttributeTest} :
      Attribute lexemes test → Single lexemes (.attribute test)
  | functional {lexemes inside : List Lexeme} {name : String} {argument : Argument} :
      Call name inside lexemes →
      Text.sameName name "not" = false → Text.sameName name "has" = false →
      ArgumentOf inside argument → Single lexemes (.functional name argument)
  | negation {lexemes first others : List Lexeme} {name : String}
      {item : Negatable} {items : List Negatable} :
      Call name (first ++ others) lexemes → Text.sameName name "not" = true →
      Negated first item → NegatedRest others items → Single lexemes (negation item items)
  | has {lexemes lead inside : List Lexeme} {name : String}
      {combinator : Option Combinator} {argument : Selector} :
      Call name (lead ++ inside) lexemes → Text.sameName name "has" = true →
      Lead lead combinator → Listing inside argument → Single lexemes (.has combinator argument)

inductive Negated : List Lexeme → Negatable → Prop where
  | type {name : Lexeme} : name.token.kind = .ident → Negated [name] (.type name.token.literal)
  | universal {star : Lexeme} : star.token.kind = .asterisk → Negated [star] .universal
  | simple {lexemes : List Lexeme} {test : Simple} :
      Single lexemes test → MayBeNegated test → Negated lexemes (.simple test)

inductive NegatedRest : List Lexeme → List Negatable → Prop where
  | none : NegatedRest [] []
  | more {comma : Lexeme} {first others : List Lexeme} {item : Negatable}
      {items : List Negatable} :
      comma.token.kind = .comma → Negated first item → NegatedRest others items →
      NegatedRest (comma :: (first ++ others)) (item :: items)

/-- Simple selectors one directly behind the other. -/
inductive Filters : List Lexeme → List Simple → Prop where
  | none : Filters [] []
  | more {start : Lexeme} {first others : List Lexeme} {test : Simple} {tests : List Simple} :
      start.spaced = false → Single (start :: first) test → Filters others tests →
      Filters (start :: (first ++ others)) (test :: tests)

inductive Compound : List Lexeme → Selector → Prop where
  | type {name : Lexeme} {others : List Lexeme} {tests : List Simple} :
      name.token.kind = .ident → Filters others tests →
      Compound (name :: others) (.compound (some (.type name.token.literal)) tests)
  | universal {star : Lexeme} {others : List Lexeme} {tests : List Simple} :
      star.token.kind = .asterisk → Filters others tests →
      Compound (star :: others) (.compound (some .universal) tests)
  | bare {first others : List Lexeme} {test : Simple} {tests : List Simple} :
      Single first test → Filters others tests →
      Compound (first ++ others) (.compound none (test :: tests))

/-- What stands behind the first selector in a chain, joined to it from the left. -/
inductive ChainRest : Selector → List Lexeme → Selector → Prop where
  | none {whole : Selector} : ChainRest whole [] whole
  | marked {mark : Lexeme} {next others : List Lexeme} {combinator : Combinator}
      {left right whole : Selector} :
      Joins mark.token.kind combinator → Compound next right →
      ChainRest (.joined left combinator right) others whole →
      ChainRest left (mark :: (next ++ others)) whole
  | spaced {start : Lexeme} {next others : List Lexeme} {left right whole : Selector} :
      start.spaced = true → Compound (start :: next) right →
      ChainRest (.joined left .descendant right) others whole →
      ChainRest left (start :: (next ++ others)) whole

inductive Chain : List Lexeme → Selector → Prop where
  | mk {first others : List Lexeme} {start whole : Selector} :
      Compound first start → ChainRest start others whole → Chain (first ++ others) whole

inductive ListingRest : List Lexeme → List Selector → Prop where
  | none : ListingRest [] []
  | more {comma : Lexeme} {first others : List Lexeme} {alternative : Selector}
      {rest : List Selector} :
      comma.token.kind = .comma → Chain first alternative → ListingRest others rest →
      ListingRest (comma :: (first ++ others)) (alternative :: rest)

inductive Listing : List Lexeme → Selector → Prop where
  | mk {first others : List Lexeme} {alternative : Selector} {rest : List Selector} :
      Chain first alternative → ListingRest others rest →
      Listing (first ++ others) (alternatives alternative rest)
end

/-- A text is a selector where its lexemes are a list, up to the end token. -/
def Whole (text : String) (selector : Selector) : Prop :=
  ∃ inside last, lexemes text.toList = inside ++ [last] ∧ last.token.isEnd = true ∧
    Listing inside selector

end TreeSelect.Grammar
