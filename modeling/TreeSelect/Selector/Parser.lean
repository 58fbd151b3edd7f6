import TreeSelect.Selector
import TreeSelect.Selector.Window
import TreeSelect.Text.Case

/-!
Reading selectors. A comma binds loosest; white space, `>`, `+` and `~` share one level
and associate to the left. The descendant combinator has no token: it is read where white
space stands before a token that can start a compound.

Only functional pseudo-classes nest, so the reader of one simple selector is the only one
that calls itself, one level deeper each time; all others take it as a parameter. Budgets
bound the depth and the loops. Each step takes at least one token, so a budget of one more
than the number of tokens ahead is never used up.
-/

namespace TreeSelect

/-- Tokens that open a simple selector which may follow another without white space. -/
def startsFilter : TokenKind → Bool
  | .hash | .dot | .leftBracket | .colon | .doubleColon => true
  | _ => false

def startsCompound (kind : TokenKind) : Bool :=
  kind == .ident || kind == .asterisk || startsFilter kind

def Combinator.ofKind? : TokenKind → Option Combinator
  | .greaterThan => some .child
  | .plus => some .nextSibling
  | .tilde => some .subsequentSibling
  | _ => none

def AttributeOperator.ofKind? : TokenKind → Option AttributeOperator
  | .equals => some .equals
  | .includes => some .includes
  | .dashMatch => some .dashMatch
  | .prefixMatch => some .prefixMatch
  | .suffixMatch => some .suffixMatch
  | .substringMatch => some .substringMatch
  | _ => none

namespace Reading

/-! Attributes: `[name]` or `[name op value]`, with white space wherever it pleases. -/

def attributeValue : Reading String := do
  let kind := (← next).token.kind
  if kind = .ident ∨ kind = .string then
    advance
    return (← token).literal
  else unexpectedNext .attributeValue

def attributeTest : Reading AttributeTest := do
  expect .ident .attributeName
  let name := (← token).literal
  let kind := (← next).token.kind
  if kind = .rightBracket then
    advance
    return ⟨name, .present, none⟩
  else match AttributeOperator.ofKind? kind with
    | none => unexpectedNext .attributeOperatorOrClose
    | some operator =>
        advance
        let value ← attributeValue
        expect .rightBracket .attributeClose
        return ⟨name, operator, some value⟩

/-! Arguments of functions that are neither `:not()` nor `:has()`. -/

/-- Tokens put together again, one space wherever white space stood between two of them. -/
def joinSpellings : List Lexeme → String
  | [] => ""
  | first :: rest =>
      first.token.spelling
        ++ String.join (rest.map fun lexeme =>
            (if lexeme.spaced then " " else "") ++ lexeme.token.spelling)

def argumentLexemes (name : String) : Nat → List Lexeme → Reading (List Lexeme)
  | 0, _ => throw .outOfBudget
  | budget + 1, read => do
      advance
      let lexeme ← current
      match lexeme.token.kind with
      | .rightParen => return read
      | .eof => halt (.expected (.functionClose name) .eof)
      | .leftParen | .function =>
          halt (.malformedArgument name (joinSpellings read ++ lexeme.token.spelling))
      | _ => argumentLexemes name budget (read ++ [lexeme])

/-- A string is an argument only by itself. -/
def argumentOf? (read : List Lexeme) : Option Argument :=
  match read with
  | [⟨_, ⟨.string, value⟩⟩] => some (.string value)
  | _ =>
      if read.any fun lexeme => lexeme.token.kind == .string then none
      else Argument.classify (joinSpellings read)

def argument (name : String) (budget : Nat) : Reading Argument := do
  let read ← argumentLexemes name budget []
  match argumentOf? read with
  | some argument => return argument
  | none => halt (.malformedArgument name (joinSpellings read))

/-! Compounds, chains and lists, given a reader of simple selectors. -/

section
variable (simple : Reading Simple)

def filters : Nat → Reading (List Simple)
  | 0 => throw .outOfBudget
  | budget + 1 => do
      let ahead ← next
      if !ahead.spaced && startsFilter ahead.token.kind then
        advance
        let filter ← simple
        let others ← filters budget
        return filter :: others
      else return []

def compound (budget : Nat) : Reading Selector := do
  let token ← token
  match token.kind with
  | .ident => return .compound (some (.type token.literal)) (← filters simple budget)
  | .asterisk => return .compound (some .universal) (← filters simple budget)
  | kind =>
      if startsFilter kind then
        let filter ← simple
        let others ← filters simple budget
        return .compound none (filter :: others)
      else if kind = .illegal then illegalHere
      else halt (.noStart kind token.spelling)

/-- The combinator ahead, moved past if it has a token of its own. -/
def combinator? : Reading (Option Combinator) := do
  let ahead ← next
  match Combinator.ofKind? ahead.token.kind with
  | some combinator =>
      advance
      return some combinator
  | none =>
      if ahead.spaced && startsCompound ahead.token.kind then return some .descendant
      else return none

/-- What is joined to `left`, each new compound to all that stands before it. -/
def chainAfter : Nat → Selector → Reading Selector
  | 0, _ => throw .outOfBudget
  | budget + 1, left => do
      match ← combinator? with
      | none => return left
      | some combinator =>
          advance
          let right ← compound simple budget
          chainAfter budget (.joined left combinator right)

def chain (budget : Nat) : Reading Selector := do
  let first ← compound simple budget
  chainAfter simple budget first

def alternativesAfter : Nat → Reading (List Selector)
  | 0 => throw .outOfBudget
  | budget + 1 => do
      if (← next).token.kind = .comma then
        advance
        advance
        let alternative ← chain simple budget
        let others ← alternativesAfter budget
        return alternative :: others
      else return []

def selectorList (budget : Nat) : Reading Selector := do
  let first ← chain simple budget
  let others ← alternativesAfter simple budget
  match others with
  | [] => return first
  | _ => return .group (first :: others)

/-! The two functions that take selectors, read from their name onwards. -/

def negatable : Reading Negatable := do
  let token ← token
  let item ← match token.kind with
    | .ident => pure (Negatable.type token.literal)
    | .asterisk => pure Negatable.universal
    | kind =>
        if startsFilter kind then
          match ← simple with
          | .notOne _ => halt (.unnegatable .negation)
          | .notAny _ => halt (.unnegatable .negation)
          | .has _ _ => halt (.unnegatable .relation)
          | test => pure (Negatable.simple test)
        else if kind = .illegal then illegalHere
        else halt (.expected .negatable kind)
  let ahead ← next
  if !ahead.spaced && startsFilter ahead.token.kind then halt (.unnegatable .compound)
  else return item

def negatablesAfter : Nat → Reading (List Negatable)
  | 0 => throw .outOfBudget
  | budget + 1 => do
      if (← next).token.kind = .comma then
        advance
        advance
        let item ← negatable simple
        let others ← negatablesAfter budget
        return item :: others
      else return []

def negation (budget : Nat) : Reading Simple := do
  advance
  let first ← negatable simple
  let others ← negatablesAfter simple budget
  expect .rightParen .negationClose
  match others with
  | [] => return .notOne first
  | _ => return .notAny (first :: others)

def relation (budget : Nat) : Reading Simple := do
  advance
  let combinator := Combinator.ofKind? (← token).kind
  if combinator.isSome then advance
  let argument ← selectorList simple budget
  expect .rightParen .hasClose
  return .has combinator argument

def function (name : String) (budget : Nat) : Reading Simple := do
  if Text.sameName name "not" then negation simple budget
  else if Text.sameName name "has" then relation simple budget
  else return .functional name (← argument name budget)

def pseudoClass (budget : Nat) : Reading Simple := do
  let ahead ← next
  if ahead.spaced then unexpectedNext .pseudoClassName
  else match ahead.token.kind with
    | .ident =>
        advance
        return .pseudo ahead.token.literal .pseudoClass
    | .function =>
        advance
        function simple ahead.token.literal budget
    | _ => unexpectedNext .pseudoClassName

end

/-- The simple selector that starts at the current token and nests at most `depth` deep. -/
def simple : Nat → Reading Simple
  | 0 => throw .outOfBudget
  | depth + 1 => do
      let token ← token
      match token.kind with
      | .hash => return .hash token.literal
      | .dot =>
          expectAdjacent .ident .className
          return .cls (← Reading.token).literal
      | .leftBracket => return .attribute (← attributeTest)
      | .colon => pseudoClass (simple depth) depth
      | .doubleColon =>
          expectAdjacent .ident .pseudoElementName
          return .pseudo (← Reading.token).literal .pseudoElement
      | kind => halt (.expected .simpleSelector kind)

/-- A selector list with nothing behind it. -/
def wholeSelector (budget : Nat) : Reading Selector := do
  let selector ← selectorList (simple budget) budget
  if (← next).token.isEnd then return selector
  else
    advance
    let token ← token
    halt (.leftover token.kind token.spelling)

end Reading

/-! The parser keeps its window between calls: a second call reads on from the current
token of the first, and faults add up. -/

structure Parser where
  window : Window
  faults : List Fault

namespace Parser

def ofText (text : String) : Parser := ⟨Window.ofText text, []⟩

def next (parser : Parser) : Except Fault Selector × Parser :=
  match (Reading.wholeSelector parser.window.budget).run parser.window with
  | .ok selector window => (.ok selector, { parser with window := window })
  | .error halt window => (.error halt.cause, ⟨window, parser.faults ++ [halt.cause]⟩)

end Parser

def parse (text : String) : Except Fault Selector := ((Parser.ofText text).next).1

end TreeSelect
