import TreeSelect.Json
import TreeSelect.Selector

/-!
The JSON form of a selector tree. A constructor with fields is an object with one member
named after it, one without fields is a string, and a selector names its own kind in the
member `type`.
-/

namespace TreeSelect

def Json.tagged (tag : String) (value : Json) : Json := .object [(tag, value)]

def Combinator.json : Combinator → Json
  | .descendant => .string "Descendant"
  | .child => .string "Child"
  | .nextSibling => .string "NextSibling"
  | .subsequentSibling => .string "SubsequentSibling"

def Base.json : Base → Json
  | .type name => .tagged "Type" (.string name)
  | .universal => .string "Universal"

def AttributeOperator.json : AttributeOperator → Json
  | .present => .string "Exists"
  | .equals => .string "Equals"
  | .includes => .string "Includes"
  | .dashMatch => .string "DashMatch"
  | .prefixMatch => .string "PrefixMatch"
  | .suffixMatch => .string "SuffixMatch"
  | .substringMatch => .string "SubstringMatch"

def AttributeTest.json (test : AttributeTest) : Json := .object [
  ("name", .string test.name),
  ("operator", test.operator.json),
  ("value", (test.value.map Json.string).getD .null)]

def PseudoKind.json : PseudoKind → Json
  | .pseudoClass => .string "Class"
  | .pseudoElement => .string "Element"

def Sign.json : Sign → Json
  | .plus => .string "Plus"
  | .minus => .string "Minus"

def Dimension.json (d : Dimension) : Json := .object [
  ("a", .ofNat d.a.toNat),
  ("a_sign", d.aSign.json),
  ("b", .ofNat d.b.toNat),
  ("b_sign", d.bSign.json)]

def NthKeyword.json : NthKeyword → Json
  | .odd => .string "Odd"
  | .even => .string "Even"

def Argument.json : Argument → Json
  | .dimension d => .tagged "Dimension" d.json
  | .integer value => .tagged "Integer" (.ofInt value)
  | .keyword word => .tagged "Keyword" word.json
  | .string value => .tagged "String" (.string value)
  | .ident name => .tagged "Ident" (.string name)

mutual
def Selector.json : Selector → Json
  | .group alternatives => .object [
      ("type", .string "Group"),
      ("selectors", .array (selectorsJson alternatives))]
  | .joined left combinator right => .object [
      ("type", .string "Selector"),
      ("left", left.json),
      ("combinator", combinator.json),
      ("right", right.json)]
  | .compound base filters => .object [
      ("type", .string "Sequence"),
      ("base", (base.map Base.json).getD .null),
      ("filters", .array (simplesJson filters))]

def Simple.json : Simple → Json
  | .cls name => .tagged "Class" (.string name)
  | .hash name => .tagged "Hash" (.string name)
  | .attribute test => .tagged "Attribute" test.json
  | .pseudo name kind => .tagged "Pseudo" (.object [
      ("ident", .string name),
      ("kind", kind.json)])
  | .functional name argument => .tagged "PseudoFunction" (.object [
      ("name", .string name),
      ("argument", argument.json)])
  | .notOne item => .tagged "Negation" (.object [("argument", .tagged "Single" item.json)])
  | .notAny items => .tagged "Negation" (.object [
      ("argument", .tagged "Group" (.array (negatablesJson items)))])
  | .has combinator argument => .tagged "Has" (.object [
      ("combinator", (combinator.map Combinator.json).getD .null),
      ("argument", argument.json)])

def Negatable.json : Negatable → Json
  | .type name => .tagged "Type" (.string name)
  | .universal => .string "Universal"
  | .simple test => .tagged "Simple" test.json

def selectorsJson : List Selector → List Json
  | [] => []
  | first :: rest => first.json :: selectorsJson rest

def simplesJson : List Simple → List Json
  | [] => []
  | first :: rest => first.json :: simplesJson rest

def negatablesJson : List Negatable → List Json
  | [] => []
  | first :: rest => first.json :: negatablesJson rest
end

end TreeSelect
