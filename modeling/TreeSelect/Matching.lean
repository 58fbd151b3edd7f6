import TreeSelect.Matching.Filter
import TreeSelect.Matching.Frontier

/-!
Evaluation of selectors on a set of candidates, at first all elements below a root. A
compound narrows the set; a joined selector goes from the matches of its left side along
the combinator and narrows what it reaches by its right side; a group gives every
alternative the same candidates and keeps each element where it is first seen.

Nothing here can fail, and nothing here sees warnings or log records.
-/

namespace TreeSelect
namespace Scope

mutual
def select (scope : Scope) : Selector → List NodeId → List NodeId
  | .group alternatives, candidates => (scope.selectEach alternatives candidates).eraseDups
  | .joined left combinator right, candidates =>
      scope.select right (scope.frontier combinator (scope.select left candidates))
  | .compound base filters, candidates => scope.compound base filters candidates

/-- The results of all alternatives, one behind the other. -/
def selectEach (scope : Scope) : List Selector → List NodeId → List NodeId
  | [], _ => []
  | first :: rest, candidates => scope.select first candidates ++ scope.selectEach rest candidates
end

def evaluate (scope : Scope) (selector : Selector) : List NodeId :=
  scope.select selector scope.fullSet

end Scope

def evaluate (selector : Selector) (tree : Tree) (root : NodeId) : List NodeId :=
  (Scope.of tree root).evaluate selector

end TreeSelect
