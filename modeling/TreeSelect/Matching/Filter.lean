import TreeSelect.Matching.Attribute
import TreeSelect.Matching.PseudoClass

/-!
Whether one element passes one simple selector, and beside it what is worth a warning on
the way. Only elements pass anything, a negation too. Pseudo-elements are not elements of
the tree and pass none; `:has()` is not evaluated and passes none.

A negation of several items looks at them in order and stops at the first that matches;
what stands behind it gives no warning.
-/

namespace TreeSelect

def Scope.hasType (scope : Scope) (id : NodeId) (name : String) : Bool :=
  (scope.tree.tag? id).any fun tag => Text.sameName tag name

def Scope.passesBase (scope : Scope) (id : NodeId) : Option Base → Bool
  | some (.type name) => scope.hasType id name
  | some .universal => scope.tree.isElement id
  | none => scope.tree.isElement id

def Scope.elementPasses (scope : Scope) (id : NodeId) (test : Element → Bool) : Bool :=
  (scope.tree.element? id).any test

mutual
def Simple.accepts (scope : Scope) (hint : Option String) (id : NodeId) : Simple → Bool
  | .cls name => scope.elementPasses id fun element => element.classes.contains name
  | .hash name =>
      scope.elementPasses id fun element =>
        (element.named "id").any fun entry => entry.value == name
  | .attribute test => scope.elementPasses id test.accepts
  | .pseudo name .pseudoClass => scope.tree.isElement id && scope.inPseudoClass hint id name
  | .pseudo _ .pseudoElement => false
  | .functional name argument =>
      scope.tree.isElement id && scope.inFunction hint id name argument
  | .notOne item => scope.tree.isElement id && !item.accepts scope hint id
  | .notAny items => scope.tree.isElement id && !anyAccepts scope hint id items
  | .has _ _ => false

def Negatable.accepts (scope : Scope) (hint : Option String) (id : NodeId) : Negatable → Bool
  | .type name => scope.hasType id name
  | .universal => scope.tree.isElement id
  | .simple test => test.accepts scope hint id

def anyAccepts (scope : Scope) (hint : Option String) (id : NodeId) : List Negatable → Bool
  | [] => false
  | first :: rest => first.accepts scope hint id || anyAccepts scope hint id rest
end

def hasWarning : String := ":has() is not evaluated and matches nothing"

mutual
def Simple.warnings (scope : Scope) (hint : Option String) (id : NodeId) :
    Simple → List String
  | .pseudo name .pseudoClass => (pseudoClassWarning? name).toList
  | .functional name argument => (functionWarning? name argument).toList
  | .notOne item => item.warnings scope hint id
  | .notAny items => negatablesWarnings scope hint id items
  | .has _ _ => [hasWarning]
  | _ => []

def Negatable.warnings (scope : Scope) (hint : Option String) (id : NodeId) :
    Negatable → List String
  | .simple test => test.warnings scope hint id
  | _ => []

def negatablesWarnings (scope : Scope) (hint : Option String) (id : NodeId) :
    List Negatable → List String
  | [] => []
  | first :: rest =>
      first.warnings scope hint id
        ++ (if first.accepts scope hint id then [] else negatablesWarnings scope hint id rest)
end

/-- The type that a compound names, for the classes that count elements of one type. -/
def Base.hint? : Option Base → Option String
  | some (.type name) => some name
  | _ => none

def Scope.passing (scope : Scope) (hint : Option String) (filters : List Simple)
    (candidates : List NodeId) : List NodeId :=
  filters.foldl (fun working filter => working.filter (filter.accepts scope hint ·)) candidates

def Scope.compound (scope : Scope) (base : Option Base) (filters : List Simple)
    (candidates : List NodeId) : List NodeId :=
  scope.passing (Base.hint? base) filters (candidates.filter (scope.passesBase · base))

end TreeSelect
