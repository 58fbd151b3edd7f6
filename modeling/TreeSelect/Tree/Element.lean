import TreeSelect.Text.Case
import TreeSelect.Text.Words

/-!
Elements: a tag and a list of attributes. The list keeps its order and may hold one name
several times; names are looked up without regard to ASCII case and every entry counts.
-/

namespace TreeSelect

structure Attribute where
  name : String
  value : String
  deriving DecidableEq

structure Element where
  tag : String
  attributes : List Attribute
  deriving DecidableEq

namespace Element

def named (element : Element) (name : String) : List Attribute :=
  element.attributes.filter fun entry => Text.sameName entry.name name

def value? (element : Element) (name : String) : Option String :=
  (element.named name).head?.map Attribute.value

def id? (element : Element) : Option String := element.value? "id"

/-- The words of all class attributes, in order. -/
def classes (element : Element) : List String :=
  (element.named "class").flatMap fun entry => Text.words entry.value

end Element
end TreeSelect
