import TreeSelect.Text.Blank
import TreeSelect.Token
import TreeSelect.Token.Identifier

/-!
Reading tokens off text. White space is skipped before every token and is kept as one flag,
`spaced`; at the end of the text the end token is read, any number of times.
A quote that is never closed takes the rest of the text with it.
-/

namespace TreeSelect

structure Lexeme where
  spaced : Bool
  token : Token
  deriving DecidableEq

namespace Token

/-- Characters that are a token by themselves, whatever follows. -/
def punctuation? : Char → Option TokenKind
  | '+' => some .plus
  | ',' => some .comma
  | '.' => some .dot
  | '(' => some .leftParen
  | ')' => some .rightParen
  | '[' => some .leftBracket
  | ']' => some .rightBracket
  | '>' => some .greaterThan
  | '=' => some .equals
  | _ => none

structure Pair where
  second : Char
  together : TokenKind
  alone : TokenKind

/-- Characters that make one token with a certain next character, and another without it. -/
def pair? : Char → Option Pair
  | ':' => some ⟨':', .doubleColon, .colon⟩
  | '*' => some ⟨'=', .substringMatch, .asterisk⟩
  | '~' => some ⟨'=', .includes, .tilde⟩
  | '|' => some ⟨'=', .dashMatch, .verticalBar⟩
  | '^' => some ⟨'=', .prefixMatch, .illegal⟩
  | '$' => some ⟨'=', .suffixMatch, .illegal⟩
  | _ => none

/-- Marks that turn the name after them into one token. -/
def sigil? : Char → Option TokenKind
  | '#' => some .hash
  | '@' => some .atKeyword
  | _ => none

def isQuote (c : Char) : Bool := c == '"' || c == '\''

def readQuoted (quote : Char) (rest : List Char) : Token × List Char :=
  match rest.dropWhile (· != quote) with
  | [] => (⟨.illegal, quote.toString⟩, [])
  | _ :: after => (⟨.string, String.ofList (rest.takeWhile (· != quote))⟩, after)

def readPair (first : Char) (pair : Pair) (rest : List Char) : Token × List Char :=
  match rest with
  | next :: after =>
      if next = pair.second then (⟨pair.together, String.ofList [first, next]⟩, after)
      else (⟨pair.alone, first.toString⟩, rest)
  | [] => (⟨pair.alone, first.toString⟩, [])

def readSigil (mark : Char) (kind : TokenKind) (rest : List Char) : Token × List Char :=
  match rest with
  | first :: _ =>
      if Text.isAlphabetic first then
        (⟨kind, String.ofList (rest.takeWhile isIdentChar)⟩, rest.dropWhile isIdentChar)
      else (⟨.illegal, mark.toString⟩, rest)
  | [] => (⟨.illegal, mark.toString⟩, [])

/-- A name directly before `(` takes the parenthesis into its token. -/
def readName (text : List Char) : Token × List Char :=
  let name := String.ofList (text.takeWhile isIdentChar)
  match text.dropWhile isIdentChar with
  | '(' :: after => (⟨.function, name⟩, after)
  | after => (⟨.ident, name⟩, after)

def readNumber (text : List Char) : Token × List Char :=
  (⟨.number, String.ofList (text.takeWhile Char.isDigit)⟩, text.dropWhile Char.isDigit)

def startsWithIdentChar : List Char → Bool
  | [] => false
  | c :: _ => isIdentChar c

/-- The token that starts at `c`, which is no white space. -/
def readAt (c : Char) (rest : List Char) : Token × List Char :=
  if isQuote c then readQuoted c rest
  else match punctuation? c with
  | some kind => (⟨kind, c.toString⟩, rest)
  | none => match pair? c with
  | some pair => readPair c pair rest
  | none => match sigil? c with
  | some kind => readSigil c kind rest
  | none =>
      if c = '-' ∧ startsWithIdentChar rest = false then (⟨.minus, "-"⟩, rest)
      else if isIdentStart c then readName (c :: rest)
      else if c.isDigit then readNumber (c :: rest)
      else (⟨.illegal, c.toString⟩, rest)

def read (text : List Char) : Token × List Char :=
  match text.dropWhile Text.isBlank with
  | [] => (endOfInput, [])
  | c :: rest => readAt c rest

def startsBlank : List Char → Bool
  | [] => false
  | c :: _ => Text.isBlank c

end Token

theorem length_dropWhile_le (keep : Char → Bool) (text : List Char) :
    (text.dropWhile keep).length ≤ text.length :=
  (List.dropWhile_sublist keep).length_le

namespace Token

theorem read_quoted_length (quote : Char) (rest : List Char) :
    (readQuoted quote rest).2.length ≤ rest.length := by
  have kept := length_dropWhile_le (· != quote) rest
  unfold readQuoted
  split
  · simp
  · next found => rw [found] at kept; exact Nat.le_of_lt kept

theorem read_pair_length (first : Char) (pair : Pair) (rest : List Char) :
    (readPair first pair rest).2.length ≤ rest.length := by
  cases rest with
  | nil => simp [readPair]
  | cons next after => simp only [readPair]; split <;> simp

theorem read_sigil_length (mark : Char) (kind : TokenKind) (rest : List Char) :
    (readSigil mark kind rest).2.length ≤ rest.length := by
  cases rest with
  | nil => simp [readSigil]
  | cons first after =>
    simp only [readSigil]
    split
    · exact length_dropWhile_le isIdentChar (first :: after)
    · simp

theorem read_name_length (c : Char) (rest : List Char) (start : isIdentStart c = true) :
    (readName (c :: rest)).2.length ≤ rest.length := by
  have kept := length_dropWhile_le isIdentChar rest
  have member : isIdentChar c = true := by simp [isIdentChar, start]
  unfold readName
  simp only [List.dropWhile_cons, member, ↓reduceIte]
  split
  · next found => rw [found] at kept; exact Nat.le_of_lt kept
  · exact kept

theorem read_number_length (c : Char) (rest : List Char) (digit : c.isDigit = true) :
    (readNumber (c :: rest)).2.length ≤ rest.length := by
  simpa [readNumber, List.dropWhile_cons, digit] using length_dropWhile_le Char.isDigit rest

-- Every token takes at least the character that it starts with.
theorem read_at_length (c : Char) (rest : List Char) :
    (readAt c rest).2.length ≤ rest.length := by
  unfold readAt
  split
  · exact read_quoted_length c rest
  split
  · exact Nat.le_refl _
  split
  · exact read_pair_length c _ rest
  split
  · exact read_sigil_length c _ rest
  split
  · exact Nat.le_refl _
  split
  · next start => exact read_name_length c rest start
  split
  · next digit => exact read_number_length c rest digit
  · exact Nat.le_refl _

-- Reading advances on every token but the end token.
theorem read_length (text : List Char) (more : (read text).1.isEnd = false) :
    (read text).2.length < text.length := by
  have kept := length_dropWhile_le Text.isBlank text
  unfold read at more ⊢
  split
  · next found => simp [found, isEnd, endOfInput] at more
  · next c rest found =>
    rw [found] at kept
    exact Nat.lt_of_le_of_lt (read_at_length c rest) kept

end Token

def Lexeme.read (text : List Char) : Lexeme × List Char :=
  (⟨Token.startsBlank text, (Token.read text).1⟩, (Token.read text).2)

/-- All tokens of a text, the end token last. -/
def lexemes (text : List Char) : List Lexeme :=
  let next := Lexeme.read text
  if _ : next.1.token.isEnd = false then next.1 :: lexemes next.2 else [next.1]
termination_by text.length
decreasing_by exact Token.read_length text ‹_›

def tokens (text : String) : List Token := (lexemes text.toList).map Lexeme.token

end TreeSelect
