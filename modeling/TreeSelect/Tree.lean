import TreeSelect.Tree.Element

/-!
Trees of nodes held in one array and linked by index in both directions. Index 0 is the
document node that every tree starts with. Other nodes are allocated detached and are
attached after the last child of a parent.

Attaching does not ask whether the child hangs somewhere else already, nor whether the
parent lies below it: a node may end up in two lists of children. What is stated about
trees says which histories it is about.
-/

namespace TreeSelect

abbrev NodeId := Nat

inductive Content where
  | document
  | element (data : Element)
  | text (data : String)
  | comment (data : String)
  deriving DecidableEq

structure Node where
  content : Content
  parent : Option NodeId
  children : List NodeId
  next : Option NodeId
  prev : Option NodeId
  deriving DecidableEq

def Node.detached (content : Content) : Node where
  content := content
  parent := none
  children := []
  next := none
  prev := none

structure Tree where
  nodes : Array Node
  deriving DecidableEq

namespace Tree

def rootId : NodeId := 0

def empty : Tree := ⟨#[Node.detached .document]⟩

def size (tree : Tree) : Nat := tree.nodes.size

def get? (tree : Tree) (id : NodeId) : Option Node := tree.nodes[id]?

def parent? (tree : Tree) (id : NodeId) : Option NodeId := (tree.get? id).bind Node.parent

def children (tree : Tree) (id : NodeId) : List NodeId :=
  ((tree.get? id).map Node.children).getD []

def firstChild? (tree : Tree) (id : NodeId) : Option NodeId := (tree.children id).head?

def lastChild? (tree : Tree) (id : NodeId) : Option NodeId := (tree.children id).getLast?

def next? (tree : Tree) (id : NodeId) : Option NodeId := (tree.get? id).bind Node.next

def prev? (tree : Tree) (id : NodeId) : Option NodeId := (tree.get? id).bind Node.prev

def element? (tree : Tree) (id : NodeId) : Option Element :=
  match (tree.get? id).map Node.content with
  | some (.element data) => some data
  | _ => none

def text? (tree : Tree) (id : NodeId) : Option String :=
  match (tree.get? id).map Node.content with
  | some (.text data) => some data
  | _ => none

def isElement (tree : Tree) (id : NodeId) : Bool := (tree.element? id).isSome

def tag? (tree : Tree) (id : NodeId) : Option String := (tree.element? id).map Element.tag

def elementChildren (tree : Tree) (id : NodeId) : List NodeId :=
  (tree.children id).filter tree.isElement

/-! Building. -/

/-- The new node has the old size as its index. -/
def alloc (tree : Tree) (content : Content) : Tree :=
  ⟨tree.nodes.push (Node.detached content)⟩

def modify (tree : Tree) (id : NodeId) (change : Node → Node) : Tree :=
  ⟨tree.nodes.modify id change⟩

/-- Where an index is out of range, nothing is written at it. -/
def attach (tree : Tree) (parent child : NodeId) : Tree :=
  let last := tree.lastChild? parent
  let linked := match last with
    | none => tree
    | some last => tree.modify last fun node => { node with next := some child }
  (linked.modify child fun node => { node with parent := some parent, prev := last }).modify
    parent fun node => { node with children := node.children ++ [child] }

/-- Attaching with both indexes checked. -/
def attach? (tree : Tree) (parent child : NodeId) : Option Tree :=
  if parent < tree.size ∧ child < tree.size then some (tree.attach parent child) else none

def append (tree : Tree) (parent : NodeId) (content : Content) : Tree :=
  (tree.alloc content).attach parent tree.size

def append? (tree : Tree) (parent : NodeId) (content : Content) : Option Tree :=
  (tree.alloc content).attach? parent tree.size

end Tree
end TreeSelect
