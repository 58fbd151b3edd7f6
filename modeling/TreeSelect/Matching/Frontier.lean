import TreeSelect.Matching.PseudoClass
import TreeSelect.Selector

/-!
The elements that stand in the relation of a combinator to some candidate, in document
order and once each. A candidate below the one last walked adds nothing, nor does one
that was reached as a later sibling of another; both are skipped.
-/

namespace TreeSelect.Scope

def belowUncovered (scope : Scope) (covered : Option NodeId) : List NodeId → List NodeId
  | [] => []
  | id :: rest =>
      if covered.any (scope.tree.isDescendantOf id) then scope.belowUncovered covered rest
      else scope.tree.descendants id ++ scope.belowUncovered (some id) rest

def laterSiblings (scope : Scope) (reached : List NodeId) : List NodeId → List NodeId
  | [] => reached
  | id :: rest =>
      if reached.contains id then scope.laterSiblings reached rest
      else
        let new := (scope.tree.followingSiblings id).filter fun sibling =>
          scope.tree.isElement sibling && !reached.contains sibling
        scope.laterSiblings (reached ++ new) rest

def reach (scope : Scope) (combinator : Combinator) (left : List NodeId) : List NodeId :=
  match combinator with
  | .descendant => scope.belowUncovered none left
  | .child => left.flatMap scope.tree.elementChildren
  | .nextSibling => left.filterMap scope.tree.nextElementSibling?
  | .subsequentSibling => scope.laterSiblings [] left

/-- Places in document order; of an element that comes twice the later place counts. -/
def ranks (scope : Scope) : Array (Option Nat) :=
  scope.fullSet.zipIdx.foldl (fun ranks entry => ranks.setIfInBounds entry.1 (some entry.2))
    (Array.replicate scope.tree.size none)

/-- Nodes without a place would go last. -/
def rankIn (scope : Scope) (ranks : Array (Option Nat)) (id : NodeId) : Nat :=
  (ranks[id]?.join).getD scope.fullSet.length

def dropRepeats : List NodeId → List NodeId
  | first :: second :: rest =>
      if first = second then dropRepeats (second :: rest)
      else first :: dropRepeats (second :: rest)
  | ids => ids

def inDocumentOrder (scope : Scope) (ids : List NodeId) : List NodeId :=
  let ranks := scope.ranks
  dropRepeats (ids.mergeSort fun left right =>
    decide (scope.rankIn ranks left ≤ scope.rankIn ranks right))

def frontier (scope : Scope) (combinator : Combinator) (left : List NodeId) : List NodeId :=
  scope.inDocumentOrder (scope.reach combinator left)

end TreeSelect.Scope
