import TreeSelect.Matching.Position
import TreeSelect.Selector.Argument
import TreeSelect.Tree.Navigation

/-!
The structural pseudo-classes, by name without regard to ASCII case. Every other name
matches nothing and is worth a warning; so is a counting function whose argument is no
formula. The tag that the of-type classes count is the type named by the compound, or
else the element's own tag.
-/

namespace TreeSelect

/-- What a root covers: its elements in document order, and the element that `:root` names. -/
structure Scope where
  tree : Tree
  fullSet : List NodeId
  documentElement : Option NodeId

def Scope.of (tree : Tree) (root : NodeId) : Scope where
  tree := tree
  fullSet := tree.descendants root
  documentElement := tree.documentElement? root

inductive PseudoClass where
  | root
  | firstChild
  | lastChild
  | firstOfType
  | lastOfType
  | onlyChild
  | onlyOfType
  | empty

def PseudoClass.ofName? (name : String) : Option PseudoClass :=
  match Text.foldCase name with
  | "root" => some .root
  | "first-child" => some .firstChild
  | "last-child" => some .lastChild
  | "first-of-type" => some .firstOfType
  | "last-of-type" => some .lastOfType
  | "only-child" => some .onlyChild
  | "only-of-type" => some .onlyOfType
  | "empty" => some .empty
  | _ => none

inductive CountingClass where
  | nthChild
  | nthLastChild
  | nthOfType
  | nthLastOfType

def CountingClass.ofName? (name : String) : Option CountingClass :=
  match Text.foldCase name with
  | "nth-child" => some .nthChild
  | "nth-last-child" => some .nthLastChild
  | "nth-of-type" => some .nthOfType
  | "nth-last-of-type" => some .nthLastOfType
  | _ => none

def CountingClass.population (counting : CountingClass) (tag : String) : Population :=
  match counting with
  | .nthChild => .children
  | .nthLastChild => Population.children.reversed
  | .nthOfType => .ofTag tag
  | .nthLastOfType => (Population.ofTag tag).reversed

def isFirst (tree : Tree) (id : NodeId) (population : Population) : Bool :=
  siblingIndex? tree id population == some 1

/-- Text and comments do not keep an element from being empty. -/
def Scope.inClass (scope : Scope) (id : NodeId) (tag : String) : PseudoClass → Bool
  | .root => scope.documentElement == some id
  | .firstChild => isFirst scope.tree id .children
  | .lastChild => isFirst scope.tree id Population.children.reversed
  | .firstOfType => isFirst scope.tree id (.ofTag tag)
  | .lastOfType => isFirst scope.tree id (Population.ofTag tag).reversed
  | .onlyChild =>
      isFirst scope.tree id .children && isFirst scope.tree id Population.children.reversed
  | .onlyOfType =>
      isFirst scope.tree id (.ofTag tag) && isFirst scope.tree id (Population.ofTag tag).reversed
  | .empty => (scope.tree.elementChildren id).isEmpty

def Scope.countedTag? (scope : Scope) (hint : Option String) (id : NodeId) : Option String :=
  hint.or (scope.tree.tag? id)

def Scope.inPseudoClass (scope : Scope) (hint : Option String) (id : NodeId) (name : String) :
    Bool :=
  match scope.countedTag? hint id, PseudoClass.ofName? name with
  | some tag, some pseudoClass => scope.inClass id tag pseudoClass
  | _, _ => false

def Scope.inFunction (scope : Scope) (hint : Option String) (id : NodeId) (name : String)
    (argument : Argument) : Bool :=
  match scope.countedTag? hint id, CountingClass.ofName? name, argument.formula with
  | some tag, some counting, some formula =>
      (siblingIndex? scope.tree id (counting.population tag)).any fun index =>
        formula.admits index
  | _, _, _ => false

def pseudoClassWarning? (name : String) : Option String :=
  match PseudoClass.ofName? name with
  | some _ => none
  | none => some ("unsupported pseudo-class :" ++ name)

def functionWarning? (name : String) (argument : Argument) : Option String :=
  match CountingClass.ofName? name, argument.formula with
  | none, _ => some ("unsupported pseudo-class :" ++ name ++ "()")
  | some _, none =>
      some (":" ++ name ++ "() needs an An+B argument, got `" ++ argument.text ++ "`")
  | some _, some _ => none

end TreeSelect
