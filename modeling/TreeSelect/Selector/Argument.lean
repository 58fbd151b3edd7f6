import TreeSelect.Selector.Dimension
import TreeSelect.Text.Blank
import TreeSelect.Text.Case
import TreeSelect.Text.Numeric
import TreeSelect.Token.Identifier

/-!
The argument of a functional pseudo-class. Text is tried as a signed whole number, as
`odd` or `even`, as `An+B` and last as an identifier; white space around signs is
ignored, white space inside a term spoils the argument. A number of 2^32 or more is no
argument at all. Quoted strings are told apart by the parser and not here.
-/

namespace TreeSelect

inductive NthKeyword where
  | odd
  | even
  deriving DecidableEq

def NthKeyword.dimension : NthKeyword → Dimension
  | .odd => .normal .plus 2 .plus 1
  | .even => .normal .plus 2 .plus 0

inductive Argument where
  | dimension (value : Dimension)
  | integer (value : Int)
  | keyword (value : NthKeyword)
  | string (value : String)
  | ident (value : String)
  deriving DecidableEq

/-- The text between quotes that it does not hold itself; double quotes are preferred. -/
def quoted (value : String) : String :=
  if value.toList.contains '"' then "'" ++ value ++ "'" else "\"" ++ value ++ "\""

namespace Argument

/-- Whether white space stands between two letters or numbers of one term. -/
def splitsTermAfter (previous : Option Char) (gap : Bool) : List Char → Bool
  | [] => false
  | c :: rest =>
      if Text.isBlank c then splitsTermAfter previous true rest
      else if gap && Text.isAlphanumeric c && previous.any Text.isAlphanumeric then true
      else splitsTermAfter (some c) false rest

def splitsTerm (text : List Char) : Bool := splitsTermAfter none false text

def trimBlanks (text : List Char) : List Char :=
  ((text.dropWhile Text.isBlank).reverse.dropWhile Text.isBlank).reverse

def integer? (text : List Char) : Option Int :=
  let (sign, digits) := Sign.split text
  (Text.magnitude? digits).map sign.apply

def keyword? (text : List Char) : Option NthKeyword :=
  if Text.sameName (String.ofList text) "odd" then some .odd
  else if Text.sameName (String.ofList text) "even" then some .even
  else none

/-- The numeric readings of a text that has lost its white space, the first that fits. -/
def numeric? (text : List Char) : Option Argument :=
  match integer? text with
  | some value => some (.integer value)
  | none => match keyword? text with
    | some word => some (.keyword word)
    | none => (Dimension.read? text).map .dimension

def classify (raw : String) : Option Argument :=
  let text := raw.toList
  if splitsTerm text then none
  else match numeric? (text.filter (!Text.isBlank ·)) with
    | some argument => some argument
    | none =>
        let name := String.ofList (trimBlanks text)
        if isIdentifier name then some (.ident name) else none

def formula : Argument → Option Formula
  | .dimension d => some d.formula
  | .integer value => some ⟨0, value⟩
  | .keyword word => some word.dimension.formula
  | .string _ => none
  | .ident _ => none

def text : Argument → String
  | .dimension d => d.text
  | .integer value => value.repr
  | .keyword .odd => "odd"
  | .keyword .even => "even"
  | .string value => quoted value
  | .ident name => name

end Argument
end TreeSelect
