import TreeSelect.Selector

/-!
The canonical text of a selector. An attribute value is written bare where it reads back
as one identifier and quoted elsewhere; a leading descendant combinator inside `:has()`
is not written.
-/

namespace TreeSelect

def Combinator.symbol : Combinator → String
  | .descendant => " "
  | .child => ">"
  | .nextSibling => "+"
  | .subsequentSibling => "~"

def Combinator.joint : Combinator → String
  | .descendant => " "
  | combinator => " " ++ combinator.symbol ++ " "

def Base.text : Base → String
  | .type name => name
  | .universal => "*"

def AttributeOperator.symbol : AttributeOperator → String
  | .present => ""
  | .equals => "="
  | .includes => "~="
  | .dashMatch => "|="
  | .prefixMatch => "^="
  | .suffixMatch => "$="
  | .substringMatch => "*="

def bareOrQuoted (value : String) : String :=
  if isIdentifier value then value else quoted value

def AttributeTest.text (test : AttributeTest) : String :=
  "[" ++ test.name ++ test.operator.symbol
    ++ (match test.value with
        | none => ""
        | some value => bareOrQuoted value)
    ++ "]"

def PseudoKind.mark : PseudoKind → String
  | .pseudoClass => ":"
  | .pseudoElement => "::"

def hasLead : Option Combinator → String
  | none => ""
  | some .descendant => ""
  | some combinator => combinator.symbol ++ " "

mutual
def Selector.text : Selector → String
  | .group alternatives => alternativesText alternatives
  | .joined left combinator right => left.text ++ combinator.joint ++ right.text
  | .compound base filters => ((base.map Base.text).getD "") ++ filtersText filters

def Simple.text : Simple → String
  | .cls name => "." ++ name
  | .hash name => "#" ++ name
  | .attribute test => test.text
  | .pseudo name kind => kind.mark ++ name
  | .functional name argument => ":" ++ name ++ "(" ++ argument.text ++ ")"
  | .notOne item => ":not(" ++ item.text ++ ")"
  | .notAny items => ":not(" ++ negatablesText items ++ ")"
  | .has combinator argument => ":has(" ++ hasLead combinator ++ argument.text ++ ")"

def Negatable.text : Negatable → String
  | .type name => name
  | .universal => "*"
  | .simple test => test.text

def alternativesText : List Selector → String
  | [] => ""
  | [last] => last.text
  | first :: rest => first.text ++ ", " ++ alternativesText rest

def filtersText : List Simple → String
  | [] => ""
  | first :: rest => first.text ++ filtersText rest

def negatablesText : List Negatable → String
  | [] => ""
  | [last] => last.text
  | first :: rest => first.text ++ ", " ++ negatablesText rest
end

end TreeSelect
