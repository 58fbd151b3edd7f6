/-!
Words of an attribute value. Only the five ASCII blanks separate words here; a no-break
space or a vertical tab is part of the word that it stands in.
-/

namespace TreeSelect.Text

def isAsciiBlank (c : Char) : Bool :=
  c == ' ' || c == '\t' || c == '\n' || c == '\x0c' || c == '\r'

/-- The pieces between the blanks, empty ones included. -/
def pieces : List Char → List (List Char)
  | [] => [[]]
  | c :: rest =>
      if isAsciiBlank c then [] :: pieces rest
      else match pieces rest with
        | [] => [[c]]
        | piece :: others => (c :: piece) :: others

def words (value : String) : List String :=
  ((pieces value.toList).filter fun piece => !piece.isEmpty).map String.ofList

/-- Whether `part` stands somewhere in the text; the empty part stands in every text. -/
def occursIn (part : List Char) : List Char → Bool
  | [] => part.isEmpty
  | c :: rest => part.isPrefixOf (c :: rest) || occursIn part rest

end TreeSelect.Text
