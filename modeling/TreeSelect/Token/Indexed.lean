import TreeSelect.Token.Cursor

/-!
A cursor that keeps the whole text and the place where it stands in it. It looks one character
ahead and goes on by one character at a time. What begins a name or a number is known only when it
is consumed, so that the cursor then goes back by one place; literals are cut out of the text
between two places.

To go back from the start of the text is a fault, and so is to cut between two places that are not
in order or not both in the text.
-/

namespace TreeSelect

structure IndexedCursor where
  text : Array Char
  place : Nat
  ended : Bool

inductive Misplaced where
  | beforeStart
  | noStretch (start stop : Nat)

namespace IndexedCursor

def ofText (text : String) : IndexedCursor := ⟨text.toList.toArray, 0, false⟩

def peek? (cursor : IndexedCursor) : Option Char := cursor.text[cursor.place]?

def spaced (cursor : IndexedCursor) : Bool := cursor.peek?.any Text.isBlank

def advanced (cursor : IndexedCursor) : IndexedCursor := { cursor with place := cursor.place + 1 }

-- Behind every character that is there, less of the text is left.
theorem advanced_left {cursor : IndexedCursor} {c : Char} (found : cursor.peek? = some c) :
    cursor.advanced.text.size - cursor.advanced.place < cursor.text.size - cursor.place := by
  obtain ⟨inside, -⟩ := Array.getElem?_eq_some_iff.mp found
  exact Nat.sub_succ_lt_self _ _ inside

def skipWhile (keep : Char → Bool) (cursor : IndexedCursor) : IndexedCursor :=
  match _ : cursor.peek? with
  | none => cursor
  | some c => if keep c then cursor.advanced.skipWhile keep else cursor
termination_by cursor.text.size - cursor.place
decreasing_by exact advanced_left ‹_›

/-- Goes behind the next such character, and tells whether there is one. -/
def skipPast (wanted : Char) (cursor : IndexedCursor) : Bool × IndexedCursor :=
  match _ : cursor.peek? with
  | none => (false, cursor)
  | some c => if c = wanted then (true, cursor.advanced) else cursor.advanced.skipPast wanted
termination_by cursor.text.size - cursor.place
decreasing_by exact advanced_left ‹_›

section
variable {cursor : IndexedCursor}

theorem skip_while_none (keep : Char → Bool) (none : cursor.peek? = none) :
    cursor.skipWhile keep = cursor := by
  rw [skipWhile]
  split
  · rfl
  · next found => exact absurd (none.symm.trans found) nofun

theorem skip_while_some (keep : Char → Bool) {c : Char} (found : cursor.peek? = some c) :
    cursor.skipWhile keep = if keep c then cursor.advanced.skipWhile keep else cursor := by
  rw [skipWhile]
  split
  · next none => exact absurd (none.symm.trans found) nofun
  · next found' =>
    obtain rfl := Option.some.inj (found.symm.trans found')
    rfl

theorem skip_past_none (wanted : Char) (none : cursor.peek? = none) :
    cursor.skipPast wanted = (false, cursor) := by
  rw [skipPast]
  split
  · rfl
  · next found => exact absurd (none.symm.trans found) nofun

theorem skip_past_some (wanted : Char) {c : Char} (found : cursor.peek? = some c) :
    cursor.skipPast wanted =
      if c = wanted then (true, cursor.advanced) else cursor.advanced.skipPast wanted := by
  rw [skipPast]
  split
  · next none => exact absurd (none.symm.trans found) nofun
  · next found' =>
    obtain rfl := Option.some.inj (found.symm.trans found')
    rfl

end

end IndexedCursor

abbrev Placing := EStateM Misplaced IndexedCursor

namespace Placing

def oneBefore : Nat → Placing Nat
  | 0 => throw .beforeStart
  | place + 1 => return place

def cut (start stop : Nat) : Placing String := do
  let text := (← get).text
  if start ≤ stop ∧ stop ≤ text.size then
    return String.ofList (text.extract start stop).toList
  else throw (.noStretch start stop)

def consume? : Placing (Option Char) := do
  let cursor ← get
  match cursor.peek? with
  | none => return none
  | some c =>
      set cursor.advanced
      return some c

def consumeIf (wanted : Char) : Placing Bool := do
  let cursor ← get
  if cursor.peek? = some wanted then
    set cursor.advanced
    return true
  else return false

def reconsume : Placing Unit := do
  let cursor ← get
  let place ← oneBefore cursor.place
  set { cursor with place := place }

def takeWhile (keep : Char → Bool) : Placing String := do
  let start ← get
  modify (·.skipWhile keep)
  let stop ← get
  cut start.place stop.place

/-! Tokens, the first character of which is consumed already. -/

def quoted (quote : Char) : Placing Token := do
  let start ← get
  if ← modifyGet (·.skipPast quote) then
    let behind ← get
    let stop ← oneBefore behind.place
    let literal ← cut start.place stop
    return ⟨.string, literal⟩
  else return ⟨.illegal, quote.toString⟩

def paired (first : Char) (pair : Token.Pair) : Placing Token := do
  if ← consumeIf pair.second then
    return ⟨pair.together, String.ofList [first, pair.second]⟩
  else return ⟨pair.alone, first.toString⟩

def marked (mark : Char) (kind : TokenKind) : Placing Token := do
  let cursor ← get
  if cursor.peek?.any Text.isAlphabetic then
    let name ← takeWhile isIdentChar
    return ⟨kind, name⟩
  else return ⟨.illegal, mark.toString⟩

def name : Placing Token := do
  reconsume
  let name ← takeWhile isIdentChar
  if ← consumeIf '(' then return ⟨.function, name⟩ else return ⟨.ident, name⟩

def number : Placing Token := do
  reconsume
  let digits ← takeWhile Char.isDigit
  return ⟨.number, digits⟩

/-- A sign, a name, a number, or nothing that a token could begin with. -/
def unmarked (c : Char) : Placing Token := do
  let cursor ← get
  if c = '-' ∧ cursor.peek?.any isIdentChar = false then return ⟨.minus, "-"⟩
  else if isIdentStart c then name
  else if c.isDigit then number
  else return ⟨.illegal, c.toString⟩

def tokenAt (c : Char) : Placing Token :=
  if Token.isQuote c then quoted c
  else match Token.punctuation? c with
  | some kind => return ⟨kind, c.toString⟩
  | none => match Token.pair? c with
  | some pair => paired c pair
  | none => match Token.sigil? c with
  | some kind => marked c kind
  | none => unmarked c

def token : Placing Token := do
  modify (·.skipWhile Text.isBlank)
  match ← consume? with
  | none => return Token.endOfInput
  | some c => tokenAt c

def next? : Placing (Option Token) := do
  let cursor ← get
  if cursor.ended then return none
  else
    let found ← token
    modify ({ · with ended := found.isEnd })
    return some found

end Placing

/-! What may be asked of a cursor of either kind, over and over and in any order. -/

inductive CursorCall where
  | read
  | next
  | spaced

inductive CursorAnswer where
  | read (token : Token)
  | next (token : Option Token)
  | spaced (flag : Bool)

def Cursor.ask (cursor : Cursor) : CursorCall → CursorAnswer × Cursor
  | .read => (.read cursor.read.1, cursor.read.2)
  | .next => (.next cursor.next?.1, cursor.next?.2)
  | .spaced => (.spaced cursor.spaced, cursor)

def Cursor.askAll (cursor : Cursor) : List CursorCall → List CursorAnswer × Cursor
  | [] => ([], cursor)
  | call :: rest =>
      let (answer, after) := cursor.ask call
      let (answers, last) := after.askAll rest
      (answer :: answers, last)

namespace Placing

def ask : CursorCall → Placing CursorAnswer
  | .read => do
      let found ← token
      return .read found
  | .next => do
      let found ← next?
      return .next found
  | .spaced => do
      let cursor ← get
      return .spaced cursor.spaced

def askAll : List CursorCall → Placing (List CursorAnswer)
  | [] => return []
  | call :: rest => do
      let answer ← ask call
      let answers ← askAll rest
      return answer :: answers

end Placing
end TreeSelect
