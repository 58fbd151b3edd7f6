import TreeSelect.Token

/-!
Why a text is no selector. The first fault ends the reading, so one attempt has one fault.
-/

namespace TreeSelect

/-- What had to stand where something else was found. -/
inductive Wanted where
  | simpleSelector
  | className
  | pseudoElementName
  | attributeName
  | attributeOperatorOrClose
  | attributeValue
  | attributeClose
  | pseudoClassName
  | negatable
  | negationClose
  | hasClose
  | functionClose (name : String)
  deriving DecidableEq

def Wanted.describe : Wanted → String
  | .simpleSelector => "simple selector"
  | .className => "identifier after '.'"
  | .pseudoElementName => "identifier after '::'"
  | .attributeName => "attribute name"
  | .attributeOperatorOrClose => "']' or attribute operator"
  | .attributeValue => "attribute value"
  | .attributeClose => "']'"
  | .pseudoClassName => "pseudo-class name after ':'"
  | .negatable => "simple selector inside :not()"
  | .negationClose => "')' to close :not()"
  | .hasClose => "')' to close :has()"
  | .functionClose name => "')' to close :" ++ name ++ "()"

/-- What may not stand inside `:not()`. -/
inductive Unnegatable where
  | negation
  | relation
  | compound
  deriving DecidableEq

def Unnegatable.describe : Unnegatable → String
  | .negation => "a nested :not()"
  | .relation => ":has()"
  | .compound => "a compound selector"

inductive Fault where
  | illegal (literal : String)
  | noStart (found : TokenKind) (literal : String)
  | expected (wanted : Wanted) (found : TokenKind)
  | leftover (found : TokenKind) (literal : String)
  | malformedArgument (name : String) (argument : String)
  | unnegatable (what : Unnegatable)
  deriving DecidableEq

def Fault.message : Fault → String
  | .illegal literal => "illegal character `" ++ literal ++ "`"
  | .noStart found literal =>
      "no prefix parse function for " ++ found.describe ++ " `" ++ literal ++ "`"
  | .expected wanted found =>
      "expected next token to be " ++ wanted.describe ++ ", got " ++ found.describe ++ " instead"
  | .leftover found literal =>
      "unexpected " ++ found.describe ++ " `" ++ literal ++ "` after selector"
  | .malformedArgument name argument =>
      "malformed argument `" ++ argument ++ "` to :" ++ name ++ "()"
  | .unnegatable what => ":not() cannot contain " ++ what.describe

def faultsMessage (faults : List Fault) : String := "; ".intercalate (faults.map Fault.message)

end TreeSelect
