import TreeSelect.Text.Words

/-!
Plain text: what is left of a text without terminal escape sequences and without control
characters. The ASCII blanks stay, line breaks among them.

A blank control character inside a short sequence interrupts it: the blank and all that
follows are shown, up to the next control character that is no blank. There the sequence
goes on, unless a character outside ASCII was shown in between. Sequences that carry a
string show nothing before they end.
-/

namespace TreeSelect.Text

/-- How far an escape sequence has been read. -/
inductive Escape where
  | outside
  | opened
  | intermediate
  | control
  | command
  | device
  | deviceParameters
  | deviceIntermediate
  | string
  deriving DecidableEq

def isAscii (c : Char) : Bool := decide (c.toNat < 0x80)

def isControl (c : Char) : Bool := decide (c.toNat < 0x20) || c.toNat == 0x7F

def isBlankControl (c : Char) : Bool := isAsciiBlank c && c != ' '

def isPlain (c : Char) : Bool := isAsciiBlank c || !isControl c

namespace Escape

def isIntermediate (c : Char) : Bool := decide (0x20 ≤ c.toNat) && decide (c.toNat ≤ 0x2F)

def isParameter (c : Char) : Bool := c.isDigit || c == ';' || c == ':'

def isFinal (c : Char) : Bool := decide (0x40 ≤ c.toNat)

/-- The byte 0x9C ends a string, also where it is a part of a character. -/
def holdsTerminator (c : Char) : Bool := (String.utf8EncodeChar c).contains 0x9C

def afterOpening (c : Char) : Escape :=
  match c with
  | '[' => .control
  | ']' => .command
  | 'P' => .device
  | 'X' | '^' | '_' => .string
  | c => if isIntermediate c then .intermediate else .outside

/-- A device header is its parameters, then intermediates, then a final character; one that
is out of place makes the rest a string at once. Before the first parameter a private mark
such as `?` may stand. -/
def inHeader (escape : Escape) (c : Char) : Escape :=
  if isIntermediate c then .deviceIntermediate
  else if isFinal c then .string
  else match escape with
    | .device => .deviceParameters
    | .deviceParameters => if isParameter c then .deviceParameters else .string
    | _ => .string

def afterPrintable (escape : Escape) (c : Char) : Escape :=
  match escape with
  | .outside => .outside
  | .opened => afterOpening c
  | .intermediate => if isIntermediate c then .intermediate else .outside
  | .control => if isFinal c then .outside else .control
  | .command => .command
  | .device | .deviceParameters | .deviceIntermediate => inHeader escape c
  | .string => .string

def afterControl (escape : Escape) (c : Char) : Escape :=
  if c = '\x18' ∨ c = '\x1a' then .outside
  else if c = '\x1b' then .opened
  else if escape = .command ∧ c = '\x07' then .outside
  else escape

/-- The sequence after a character that is not shown. -/
def step (escape : Escape) (c : Char) : Escape :=
  if isControl c then escape.afterControl c
  else if isAscii c then escape.afterPrintable c
  else if escape = .string ∧ holdsTerminator c = true then .outside
  else escape

/-- Whether a character met while the sequence is being read is shown. -/
def shows (escape : Escape) (c : Char) : Bool :=
  match escape with
  | .outside => isPlain c
  | .opened | .intermediate | .control => isBlankControl c
  | _ => false

end Escape

def plainAfter (escape : Escape) (interrupted : Bool) : List Char → List Char
  | [] => []
  | c :: rest =>
      if interrupted && isPlain c then
        c :: plainAfter (if isAscii c then escape else .outside) true rest
      else if !interrupted && escape.shows c then c :: plainAfter escape true rest
      else plainAfter (escape.step c) false rest

def plain (text : String) : String := String.ofList (plainAfter .outside false text.toList)

end TreeSelect.Text
