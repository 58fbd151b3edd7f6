import TreeSelect.Selector.Fault
import TreeSelect.Token.Lexeme

/-!
The window through which selectors are read: the current token and those ahead of it.
Beyond the last token stands the end token, without white space before it, for ever.
An illegal token is a fault as soon as it becomes current, and also where it stands ahead
in the place of a wanted token.
-/

namespace TreeSelect

structure Window where
  current : Lexeme
  ahead : List Lexeme

/-- A reading stops for a fault. It would also stop when its budget of steps is used up, or
when it had to move on from the end token. -/
inductive Halt where
  | fault (cause : Fault)
  | outOfBudget
  | pastEnd
  deriving DecidableEq

/-- Only faults come from a text; the other two halts are told as a missing selector. -/
def Halt.cause : Halt → Fault
  | .fault cause => cause
  | .outOfBudget => .noStart .eof ""
  | .pastEnd => .noStart .eof ""

/-- A halted reading leaves the window where it stood. -/
abbrev Reading := EStateM Halt Window

namespace Window

def endLexeme : Lexeme := ⟨false, Token.endOfInput⟩

def ofText (text : String) : Window :=
  match lexemes text.toList with
  | [] => ⟨endLexeme, []⟩
  | first :: rest => ⟨first, rest⟩

def next (window : Window) : Lexeme := window.ahead.headD endLexeme

/-- The window one token on; there is none beyond the end token. -/
def shift? (window : Window) : Option Window :=
  match window.ahead with
  | [] => none
  | first :: rest => some ⟨first, rest⟩

/-- Steps that suffice for everything that can be read from here. -/
def budget (window : Window) : Nat := window.ahead.length + 1

end Window

namespace Reading

def halt {α : Type} (cause : Fault) : Reading α := throw (.fault cause)

def current : Reading Lexeme := do return (← get).current

def token : Reading Token := do return (← get).current.token

def next : Reading Lexeme := do return (← get).next

def illegalHere {α : Type} : Reading α := do halt (.illegal (← token).literal)

def advance : Reading Unit := do
  match (← get).shift? with
  | none => throw .pastEnd
  | some window =>
      set window
      if window.current.token.kind = .illegal then illegalHere

/-- The fault of finding what stands ahead where something else is wanted. -/
def unexpectedNext {α : Type} (wanted : Wanted) : Reading α := do
  let ahead ← next
  if ahead.token.kind = .illegal then halt (.illegal ahead.token.literal)
  else halt (.expected wanted ahead.token.kind)

def expect (kind : TokenKind) (wanted : Wanted) : Reading Unit := do
  if (← next).token.kind = kind then advance else unexpectedNext wanted

def expectAdjacent (kind : TokenKind) (wanted : Wanted) : Reading Unit := do
  if (← next).spaced then halt (.expected wanted .whitespace) else expect kind wanted

end Reading
end TreeSelect
