import TreeSelect.Token.Lexeme

/-!
A cursor hands out the tokens of a text one at a time. Read as a sequence it ends after
the end token; asked for the next token outright it gives the end token again and again,
and doing so does not end the sequence.
-/

namespace TreeSelect

structure Cursor where
  rest : List Char
  ended : Bool

namespace Cursor

def ofText (text : String) : Cursor := ⟨text.toList, false⟩

def spaced (cursor : Cursor) : Bool := Token.startsBlank cursor.rest

def read (cursor : Cursor) : Token × Cursor :=
  let (token, rest) := Token.read cursor.rest
  (token, { cursor with rest := rest })

def next? (cursor : Cursor) : Option Token × Cursor :=
  if cursor.ended then (none, cursor)
  else
    let (token, after) := cursor.read
    (some token, { after with ended := token.isEnd })

/-- What the sequence still holds. -/
def remaining (cursor : Cursor) : List Token :=
  if cursor.ended then [] else (lexemes cursor.rest).map Lexeme.token

end Cursor
end TreeSelect
