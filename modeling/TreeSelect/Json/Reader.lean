import TreeSelect.Json.Number

/-!
Reading JSON text, strictly: no comments, no trailing commas, no raw control characters
in strings, no escape for half of a surrogate pair, nothing but white space behind the
value. Arrays and objects may be nested 127 deep. Why a text is refused is not told.

The budget of all loops is one more than the length of the whole text: every character of
a string, every item and every member takes at least one character of it.
-/

namespace TreeSelect.Json

abbrev Reader (α : Type) := List Char → Option (α × List Char)

def isSpace (c : Char) : Bool := c == ' ' || c == '\t' || c == '\n' || c == '\r'

def skipSpace (text : List Char) : List Char := text.dropWhile isSpace

/-! Strings. -/

def hexDigit? (c : Char) : Option Nat :=
  if c.isDigit then some (c.toNat - '0'.toNat)
  else if 'a' ≤ c ∧ c ≤ 'f' then some (c.toNat - 'a'.toNat + 10)
  else if 'A' ≤ c ∧ c ≤ 'F' then some (c.toNat - 'A'.toNat + 10)
  else none

def unit? (a b c d : Char) : Option Nat := do
  let a ← hexDigit? a
  let b ← hexDigit? b
  let c ← hexDigit? c
  let d ← hexDigit? d
  return ((a * 16 + b) * 16 + c) * 16 + d

def isHighSurrogate (unit : Nat) : Bool := decide (0xD800 ≤ unit) && decide (unit ≤ 0xDBFF)

def isLowSurrogate (unit : Nat) : Bool := decide (0xDC00 ≤ unit) && decide (unit ≤ 0xDFFF)

def pairedChar (high low : Nat) : Char :=
  Char.ofNat (0x10000 + (high - 0xD800) * 0x400 + (low - 0xDC00))

def escape? : Char → Option Char
  | '"' => some '"'
  | '\\' => some '\\'
  | '/' => some '/'
  | 'b' => some '\x08'
  | 'f' => some '\x0c'
  | 'n' => some '\n'
  | 'r' => some '\r'
  | 't' => some '\t'
  | _ => none

/-- The character written by an escape, of which the backslash has been read. -/
def readEscape : Reader Char
  | 'u' :: a :: b :: c :: d :: rest =>
      match unit? a b c d with
      | none => none
      | some unit =>
          if isHighSurrogate unit then
            match rest with
            | '\\' :: 'u' :: a :: b :: c :: d :: rest =>
                match unit? a b c d with
                | none => none
                | some low => if isLowSurrogate low then some (pairedChar unit low, rest) else none
            | _ => none
          else if isLowSurrogate unit then none
          else some (Char.ofNat unit, rest)
  | c :: rest => (escape? c).map (·, rest)
  | [] => none

/-- The characters up to the closing quote; the opening one has been read. -/
def readChars : Nat → Reader (List Char)
  | 0, _ => none
  | _ + 1, [] => none
  | budget + 1, c :: rest =>
      if c = '"' then some ([], rest)
      else if c = '\\' then do
        let (escaped, after) ← readEscape rest
        let (others, after) ← readChars budget after
        return (escaped :: others, after)
      else if c.toNat < 0x20 then none
      else do
        let (others, after) ← readChars budget rest
        return (c :: others, after)

def readString (budget : Nat) : Reader String := fun text => do
  let (chars, after) ← readChars budget text
  return (String.ofList chars, after)

/-! Values. -/

def readWord (word : List Char) (value : Json) : Reader Json := fun text =>
  if word.isPrefixOf text then some (value, text.drop word.length) else none

def readScalar (budget : Nat) : Reader Json := fun text =>
  match text with
  | '"' :: rest => do
      let (value, after) ← readString budget rest
      return (.string value, after)
  | 't' :: _ => readWord ['t', 'r', 'u', 'e'] (.bool true) text
  | 'f' :: _ => readWord ['f', 'a', 'l', 's', 'e'] (.bool false) text
  | 'n' :: _ => readWord ['n', 'u', 'l', 'l'] .null text
  | _ => readNumber text

section
variable (value : Reader Json)

/-- One item at least, and the closing bracket. -/
def readItems : Nat → Reader (List Json)
  | 0, _ => none
  | budget + 1, text => do
      let (item, after) ← value text
      match skipSpace after with
      | ',' :: rest =>
          let (others, after) ← readItems budget rest
          return (item :: others, after)
      | ']' :: rest => return ([item], rest)
      | _ => none

def readArray (budget : Nat) : Reader Json := fun text =>
  match skipSpace text with
  | ']' :: rest => some (.array [], rest)
  | start => do
      let (items, after) ← readItems value budget start
      return (.array items, after)

def readMember (budget : Nat) : Reader (String × Json) := fun text =>
  match skipSpace text with
  | '"' :: rest => do
      let (name, after) ← readString budget rest
      match skipSpace after with
      | ':' :: rest =>
          let (content, after) ← value rest
          return ((name, content), after)
      | _ => none
  | _ => none

def readMembers : Nat → Reader (List (String × Json))
  | 0, _ => none
  | budget + 1, text => do
      let (member, after) ← readMember value (budget + 1) text
      match skipSpace after with
      | ',' :: rest =>
          let (others, after) ← readMembers budget rest
          return (member :: others, after)
      | '\x7d' :: rest => return ([member], rest)
      | _ => none

def readObject (budget : Nat) : Reader Json := fun text =>
  match skipSpace text with
  | '\x7d' :: rest => some (.object [], rest)
  | start => do
      let (members, after) ← readMembers value budget start
      return (.object members, after)

end

/-- A value in which arrays and objects are nested at most `depth` deep. -/
def readValue (budget : Nat) : Nat → Reader Json
  | 0, text => readScalar budget (skipSpace text)
  | depth + 1, text =>
      match skipSpace text with
      | '[' :: rest => readArray (readValue budget depth) budget rest
      | '\x7b' :: rest => readObject (readValue budget depth) budget rest
      | start => readScalar budget start

def nestingLimit : Nat := 127

def read? (text : String) : Option Json := do
  let chars := text.toList
  let (value, rest) ← readValue (chars.length + 1) nestingLimit chars
  if (skipSpace rest).isEmpty then some value else none

end TreeSelect.Json
