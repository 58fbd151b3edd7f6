import TreeSelect.Selector.Dimension
import TreeSelect.Tree

/-!
Positions among siblings, counted from one. Only elements are counted, and where a
population has a type, only those with that tag, whatever its ASCII case.
-/

namespace TreeSelect

/-- Division toward zero: the quotient of a multiple is exact, and its sign is what counts. -/
def Formula.admits (formula : Formula) (index : Int) : Bool :=
  if formula.step = 0 then index == formula.offset
  else
    let distance := index - formula.offset
    distance.tmod formula.step == 0 && decide (0 ≤ distance.tdiv formula.step)

structure Population where
  ofType : Option String
  fromEnd : Bool

namespace Population

def children : Population := ⟨none, false⟩

def ofTag (tag : String) : Population := ⟨some tag, false⟩

def reversed (population : Population) : Population :=
  { population with fromEnd := !population.fromEnd }

def counts (population : Population) (tree : Tree) (id : NodeId) : Bool :=
  match population.ofType with
  | none => true
  | some tag => (tree.tag? id).any fun name => Text.sameName name tag

/-- The members among the children of a parent, in the order of counting. -/
def members (population : Population) (tree : Tree) (parent : NodeId) : List NodeId :=
  let counted := (tree.elementChildren parent).filter (population.counts tree)
  if population.fromEnd then counted.reverse else counted

end Population

/-- A node without parent, or outside the population, has no position. -/
def siblingIndex? (tree : Tree) (id : NodeId) (population : Population) : Option Nat := do
  let parent ← tree.parent? id
  let place ← (population.members tree parent).findIdx? (· == id)
  return place + 1

end TreeSelect
