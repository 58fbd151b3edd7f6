import TreeSelect.Selector
import TreeSelect.Tree.Element

/-!
Attribute tests. Names compare without regard to ASCII case, values exactly. An empty
name matches nothing; so does an empty value as word, start, end or part.
-/

namespace TreeSelect

def AttributeOperator.accepts (operator : AttributeOperator) (value query : String) : Bool :=
  match operator with
  | .present => true
  | .equals => value == query
  | .includes => (Text.words value).contains query
  | .dashMatch => value == query || (query.toList ++ ['-']).isPrefixOf value.toList
  | .prefixMatch => query != "" && query.toList.isPrefixOf value.toList
  | .suffixMatch => query != "" && query.toList.isSuffixOf value.toList
  | .substringMatch => query != "" && Text.occursIn query.toList value.toList

/-- Without a value to compare with, only the test for presence succeeds. -/
def AttributeTest.acceptsValue (test : AttributeTest) (value : String) : Bool :=
  match test.value with
  | none => test.operator == .present
  | some query => test.operator.accepts value query

def AttributeTest.accepts (test : AttributeTest) (element : Element) : Bool :=
  test.name != "" && (element.named test.name).any fun entry => test.acceptsValue entry.value

end TreeSelect
