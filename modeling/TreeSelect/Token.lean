/-!
Tokens of selector text: a kind and the literal that was read. The literal of a hash, an
at-keyword, a function or a string leaves out the marks around the name; `spelling` puts
them back. No token of kind `whitespace` is ever read: that kind only names what stood in
the place of a wanted token.
-/

namespace TreeSelect

inductive TokenKind where
  | ident
  | string
  | number
  | dot
  | hash
  | colon
  | doubleColon
  | asterisk
  | comma
  | leftParen
  | rightParen
  | leftBracket
  | rightBracket
  | verticalBar
  | plus
  | minus
  | greaterThan
  | equals
  | tilde
  | whitespace
  | includes
  | dashMatch
  | prefixMatch
  | suffixMatch
  | substringMatch
  | atKeyword
  | function
  | eof
  | illegal
  deriving DecidableEq

def TokenKind.describe : TokenKind → String
  | .ident => "identifier"
  | .string => "string"
  | .number => "number"
  | .dot => "'.'"
  | .hash => "hash"
  | .colon => "':'"
  | .doubleColon => "'::'"
  | .asterisk => "'*'"
  | .comma => "','"
  | .leftParen => "'('"
  | .rightParen => "')'"
  | .leftBracket => "'['"
  | .rightBracket => "']'"
  | .verticalBar => "'|'"
  | .plus => "'+'"
  | .minus => "'-'"
  | .greaterThan => "'>'"
  | .equals => "'='"
  | .tilde => "'~'"
  | .whitespace => "whitespace"
  | .includes => "'~='"
  | .dashMatch => "'|='"
  | .prefixMatch => "'^='"
  | .suffixMatch => "'$='"
  | .substringMatch => "'*='"
  | .atKeyword => "at-keyword"
  | .function => "function"
  | .eof => "end of input"
  | .illegal => "illegal character"

structure Token where
  kind : TokenKind
  literal : String
  deriving DecidableEq

namespace Token

def endOfInput : Token := ⟨.eof, ""⟩

def isEnd (token : Token) : Bool := token.kind == .eof

/-- A string is spelled with double quotes, whichever quotes it was read with. -/
def spelling (token : Token) : String :=
  match token.kind with
  | .hash => "#" ++ token.literal
  | .atKeyword => "@" ++ token.literal
  | .function => token.literal ++ "("
  | .string => "\"" ++ token.literal ++ "\""
  | _ => token.literal

def describe (token : Token) : String :=
  match token.kind with
  | .eof => token.kind.describe
  | _ => token.kind.describe ++ " `" ++ token.spelling ++ "`"

end Token
end TreeSelect
