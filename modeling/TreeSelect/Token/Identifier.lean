import TreeSelect.Text.Alphabetic

/-!
Identifiers: a letter, `_` or `-`, then letters, `_`, `-` and ASCII digits. A lone `-` is
a sign and not an identifier; `--` and `-1` are identifiers.
-/

namespace TreeSelect

def isIdentStart (c : Char) : Bool := Text.isAlphabetic c || c == '_' || c == '-'

def isIdentChar (c : Char) : Bool := isIdentStart c || c.isDigit

def isIdentifier (text : String) : Bool :=
  match text.toList with
  | [] => false
  | ['-'] => false
  | first :: rest => isIdentStart first && rest.all isIdentChar

end TreeSelect
