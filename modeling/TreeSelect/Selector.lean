import TreeSelect.Selector.Argument

/-!
Selectors as trees. The types allow more than the parser ever builds: groups inside
groups, chains nested to the right, compounds with nothing in them. Whatever is stated
about matching holds of all of them; what the parser builds is a matter of its own.
-/

namespace TreeSelect

inductive Combinator where
  | descendant
  | child
  | nextSibling
  | subsequentSibling
  deriving DecidableEq

inductive Base where
  | type (name : String)
  | universal
  deriving DecidableEq

inductive AttributeOperator where
  | present
  | equals
  | includes
  | dashMatch
  | prefixMatch
  | suffixMatch
  | substringMatch
  deriving DecidableEq

structure AttributeTest where
  name : String
  operator : AttributeOperator
  value : Option String
  deriving DecidableEq

inductive PseudoKind where
  | pseudoClass
  | pseudoElement
  deriving DecidableEq

mutual
inductive Selector where
  | group (alternatives : List Selector)
  | joined (left : Selector) (combinator : Combinator) (right : Selector)
  | compound (base : Option Base) (filters : List Simple)

inductive Simple where
  | cls (name : String)
  | hash (name : String)
  | attribute (test : AttributeTest)
  | pseudo (name : String) (kind : PseudoKind)
  | functional (name : String) (argument : Argument)
  | notOne (item : Negatable)
  | notAny (items : List Negatable)
  | has (combinator : Option Combinator) (argument : Selector)

inductive Negatable where
  | type (name : String)
  | universal
  | simple (test : Simple)
end

/-! Equality of trees, decided by walking both. -/

mutual
def Selector.same : Selector → Selector → Bool
  | .group left, .group right => sameSelectors left right
  | .joined left combinator right, .joined left' combinator' right' =>
      left.same left' && combinator == combinator' && right.same right'
  | .compound base filters, .compound base' filters' =>
      base == base' && sameSimples filters filters'
  | _, _ => false

def Simple.same : Simple → Simple → Bool
  | .cls name, .cls name' => name == name'
  | .hash name, .hash name' => name == name'
  | .attribute test, .attribute test' => test == test'
  | .pseudo name kind, .pseudo name' kind' => name == name' && kind == kind'
  | .functional name argument, .functional name' argument' =>
      name == name' && argument == argument'
  | .notOne item, .notOne item' => item.same item'
  | .notAny items, .notAny items' => sameNegatables items items'
  | .has combinator argument, .has combinator' argument' =>
      combinator == combinator' && argument.same argument'
  | _, _ => false

def Negatable.same : Negatable → Negatable → Bool
  | .type name, .type name' => name == name'
  | .universal, .universal => true
  | .simple test, .simple test' => test.same test'
  | _, _ => false

def sameSelectors : List Selector → List Selector → Bool
  | [], [] => true
  | left :: lefts, right :: rights => left.same right && sameSelectors lefts rights
  | _, _ => false

def sameSimples : List Simple → List Simple → Bool
  | [], [] => true
  | left :: lefts, right :: rights => left.same right && sameSimples lefts rights
  | _, _ => false

def sameNegatables : List Negatable → List Negatable → Bool
  | [], [] => true
  | left :: lefts, right :: rights => left.same right && sameNegatables lefts rights
  | _, _ => false
end

mutual
theorem Selector.same_iff : (left right : Selector) → (left.same right = true ↔ left = right)
  | .group alternatives, right => by
      cases right <;> simp [Selector.same, same_selectors_iff alternatives]
  | .joined left combinator right, other => by
      cases other <;>
        simp [Selector.same, Selector.same_iff left, Selector.same_iff right, and_assoc]
  | .compound base filters, right => by
      cases right <;> simp [Selector.same, same_simples_iff filters]

theorem Simple.same_iff : (left right : Simple) → (left.same right = true ↔ left = right)
  | .cls name, right => by cases right <;> simp [Simple.same]
  | .hash name, right => by cases right <;> simp [Simple.same]
  | .attribute test, right => by cases right <;> simp [Simple.same]
  | .pseudo name kind, right => by cases right <;> simp [Simple.same]
  | .functional name argument, right => by cases right <;> simp [Simple.same]
  | .notOne item, right => by cases right <;> simp [Simple.same, Negatable.same_iff item]
  | .notAny items, right => by cases right <;> simp [Simple.same, same_negatables_iff items]
  | .has combinator argument, right => by
      cases right <;> simp [Simple.same, Selector.same_iff argument]

theorem Negatable.same_iff :
    (left right : Negatable) → (left.same right = true ↔ left = right)
  | .type name, right => by cases right <;> simp [Negatable.same]
  | .universal, right => by cases right <;> simp [Negatable.same]
  | .simple test, right => by cases right <;> simp [Negatable.same, Simple.same_iff test]

theorem same_selectors_iff :
    (left right : List Selector) → (sameSelectors left right = true ↔ left = right)
  | [], right => by cases right <;> simp [sameSelectors]
  | first :: rest, right => by
      cases right <;> simp [sameSelectors, Selector.same_iff first, same_selectors_iff rest]

theorem same_simples_iff :
    (left right : List Simple) → (sameSimples left right = true ↔ left = right)
  | [], right => by cases right <;> simp [sameSimples]
  | first :: rest, right => by
      cases right <;> simp [sameSimples, Simple.same_iff first, same_simples_iff rest]

theorem same_negatables_iff :
    (left right : List Negatable) → (sameNegatables left right = true ↔ left = right)
  | [], right => by cases right <;> simp [sameNegatables]
  | first :: rest, right => by
      cases right <;> simp [sameNegatables, Negatable.same_iff first, same_negatables_iff rest]
end

instance : DecidableEq Selector := fun left right =>
  decidable_of_iff (left.same right = true) (left.same_iff right)

instance : DecidableEq Simple := fun left right =>
  decidable_of_iff (left.same right = true) (left.same_iff right)

instance : DecidableEq Negatable := fun left right =>
  decidable_of_iff (left.same right = true) (left.same_iff right)

end TreeSelect
