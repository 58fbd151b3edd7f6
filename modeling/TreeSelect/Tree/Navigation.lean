import TreeSelect.Tree

/-!
Walks along the links of a tree. Chains of parents and of siblings end within as many
steps as there are nodes, unless they run in a circle.

The walk down keeps a list of what is still to be visited. Every visit belongs to one way
down from the start, and without circles a way is a set of child entries; so there are at
most 2^entries visits, also where a node hangs in several lists. Nodes that are no
elements are passed over with everything below them.
-/

namespace TreeSelect.Tree

/-- The nodes on a chain of links, the start included. -/
def follow (link : NodeId → Option NodeId) : Nat → Option NodeId → List NodeId
  | _, none => []
  | 0, some _ => []
  | budget + 1, some id => id :: follow link budget (link id)

/-- Nearest first. -/
def ancestors (tree : Tree) (id : NodeId) : List NodeId :=
  follow tree.parent? tree.size (tree.parent? id)

def precedingSiblings (tree : Tree) (id : NodeId) : List NodeId :=
  follow tree.prev? tree.size (tree.prev? id)

def followingSiblings (tree : Tree) (id : NodeId) : List NodeId :=
  follow tree.next? tree.size (tree.next? id)

def nextElementSibling? (tree : Tree) (id : NodeId) : Option NodeId :=
  (tree.followingSiblings id).find? tree.isElement

def isDescendantOf (tree : Tree) (id ancestor : NodeId) : Bool :=
  (tree.ancestors id).contains ancestor

def walk (tree : Tree) : Nat → List NodeId → List NodeId
  | 0, _ => []
  | _ + 1, [] => []
  | budget + 1, id :: pending =>
      if tree.isElement id then id :: tree.walk budget (tree.children id ++ pending)
      else tree.walk budget pending

def childEntries (tree : Tree) : Nat :=
  tree.nodes.foldl (fun count node => count + node.children.length) 0

/-- All elements below a node through elements only, in document order. -/
def descendants (tree : Tree) (id : NodeId) : List NodeId :=
  tree.walk (Nat.pow 2 tree.childEntries) (tree.children id)

/-- The node at the top of the tree that `id` is in. -/
def top (tree : Tree) (id : NodeId) : NodeId := (tree.ancestors id).getLast?.getD id

/-- A detached subtree has its topmost element as document element. -/
def documentElement? (tree : Tree) (id : NodeId) : Option NodeId :=
  match (tree.get? (tree.top id)).map Node.content with
  | some .document => (tree.elementChildren (tree.top id)).head?
  | some (.element _) => some (tree.top id)
  | _ => none

end TreeSelect.Tree
