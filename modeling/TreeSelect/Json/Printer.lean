import TreeSelect.Json

/-!
JSON text, one item or member a line, two spaces a level. Control characters and the
two marks of a string are escaped; everything else, DEL included, is written as it is.
-/

namespace TreeSelect.Json

def escapeChar (c : Char) : String :=
  match c with
  | '"' => "\\\""
  | '\\' => "\\\\"
  | '\x08' => "\\b"
  | '\t' => "\\t"
  | '\n' => "\\n"
  | '\x0c' => "\\f"
  | '\r' => "\\r"
  | c =>
      if c.toNat < 0x20 then
        "\\u00" ++ String.ofList [Nat.digitChar (c.toNat / 16), Nat.digitChar (c.toNat % 16)]
      else c.toString

def stringText (value : String) : String :=
  "\"" ++ String.join (value.toList.map escapeChar) ++ "\""

def newLine (level : Nat) : String := "\n" ++ String.ofList (List.replicate (2 * level) ' ')

mutual
def pretty (level : Nat) : Json → String
  | .null => "null"
  | .bool value => if value then "true" else "false"
  | .number spelling => spelling
  | .string value => stringText value
  | .array [] => "[]"
  | .array (first :: rest) =>
      "[" ++ newLine (level + 1) ++ first.pretty (level + 1) ++ prettyItems (level + 1) rest
        ++ newLine level ++ "]"
  | .object [] => "\x7b\x7d"
  | .object ((name, value) :: rest) =>
      "\x7b" ++ newLine (level + 1) ++ stringText name ++ ": " ++ value.pretty (level + 1)
        ++ prettyMembers (level + 1) rest ++ newLine level ++ "\x7d"

def prettyItems (level : Nat) : List Json → String
  | [] => ""
  | first :: rest =>
      "," ++ newLine level ++ first.pretty level ++ prettyItems level rest

def prettyMembers (level : Nat) : List (String × Json) → String
  | [] => ""
  | (name, value) :: rest =>
      "," ++ newLine level ++ stringText name ++ ": " ++ value.pretty level
        ++ prettyMembers level rest
end

end TreeSelect.Json
