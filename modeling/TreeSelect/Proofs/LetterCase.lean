import Mathlib
import TreeSelect.Matching
import TreeSelect.Proofs.Values

/-!
Names and their letter case. Types, attributes and pseudo-classes are looked up by name wherever
that happens, in a test, in a population or in a list of attributes, without regard to ASCII
letter case: a selector and a tree may have all their names in small letters and evaluation goes
the same way, step by step. Nothing is asked of the links of the tree for that.

Values are another matter. Classes, identifiers and what attributes are compared with are taken as
they are written.
-/

namespace TreeSelect

/-! Names in small letters. -/

def Base.folded : Base → Base
  | .type name => .type (Text.foldCase name)
  | .universal => .universal

def AttributeTest.folded (test : AttributeTest) : AttributeTest :=
  { test with name := Text.foldCase test.name }

mutual
def Selector.folded : Selector → Selector
  | .group alternatives => .group (foldedSelectors alternatives)
  | .joined left combinator right => .joined left.folded combinator right.folded
  | .compound base filters => .compound (base.map Base.folded) (foldedSimples filters)

/-- Names of classes and identifiers are values and stay as they are. -/
def Simple.folded : Simple → Simple
  | .cls name => .cls name
  | .hash name => .hash name
  | .attribute test => .attribute test.folded
  | .pseudo name kind => .pseudo (Text.foldCase name) kind
  | .functional name argument => .functional (Text.foldCase name) argument
  | .notOne item => .notOne item.folded
  | .notAny items => .notAny (foldedNegatables items)
  | .has combinator argument => .has combinator argument.folded

def Negatable.folded : Negatable → Negatable
  | .type name => .type (Text.foldCase name)
  | .universal => .universal
  | .simple test => .simple test.folded

def foldedSelectors : List Selector → List Selector
  | [] => []
  | first :: rest => first.folded :: foldedSelectors rest

def foldedSimples : List Simple → List Simple
  | [] => []
  | first :: rest => first.folded :: foldedSimples rest

def foldedNegatables : List Negatable → List Negatable
  | [] => []
  | first :: rest => first.folded :: foldedNegatables rest
end

def Attribute.folded (entry : Attribute) : Attribute :=
  { entry with name := Text.foldCase entry.name }

def Element.folded (element : Element) : Element where
  tag := Text.foldCase element.tag
  attributes := element.attributes.map Attribute.folded

def Content.folded : Content → Content
  | .document => .document
  | .element data => .element data.folded
  | .text data => .text data
  | .comment data => .comment data

def Node.folded (node : Node) : Node := { node with content := node.content.folded }

def Tree.folded (tree : Tree) : Tree := ⟨tree.nodes.map Node.folded⟩

def Population.folded (population : Population) : Population :=
  { population with ofType := population.ofType.map Text.foldCase }

def Scope.folded (scope : Scope) : Scope := { scope with tree := scope.tree.folded }

/-! One comparison of names. -/

namespace Text

@[simp]
theorem fold_fold (name : String) : foldCase (foldCase name) = foldCase name := by
  rw [← String.toList_inj]
  simp [foldCase]

@[simp]
theorem same_name_folded_left (left right : String) :
    sameName (foldCase left) right = sameName left right := by
  rw [sameName, fold_fold, sameName]

@[simp]
theorem same_name_folded_right (left right : String) :
    sameName left (foldCase right) = sameName left right := by
  rw [sameName, fold_fold, sameName]

theorem fold_eq_empty_iff (name : String) : foldCase name = "" ↔ name = "" := by
  rw [← String.toList_inj, ← String.toList_inj]
  simp [foldCase]

end Text

namespace Element

theorem named_fold (element : Element) (name : String) :
    element.named (Text.foldCase name) = element.named name := by
  simp [named]

theorem named_folded (element : Element) (name : String) :
    element.folded.named name = (element.named name).map Attribute.folded := by
  simp only [named, folded, List.filter_map]
  congr 1
  apply List.filter_congr
  intro entry _
  exact Text.same_name_folded_left entry.name name

theorem classes_folded (element : Element) : element.folded.classes = element.classes := by
  rw [classes, classes, named_folded, List.flatMap_map]
  rfl

end Element

theorem AttributeTest.accepts_folded (test : AttributeTest) (element : Element) :
    test.folded.accepts element.folded = test.accepts element := by
  have named : (Text.foldCase test.name != "") = (test.name != "") := by
    rw [Bool.eq_iff_iff, bne_iff_ne, bne_iff_ne]
    exact not_congr (Text.fold_eq_empty_iff test.name)
  simp only [accepts, folded, named, Element.named_fold, Element.named_folded, List.any_map]
  rfl

/-! The links of a tree hold no names. -/

namespace Tree

variable (tree : Tree)

@[simp]
theorem size_folded : tree.folded.size = tree.size := Array.size_map

theorem get_folded (id : NodeId) : tree.folded.get? id = (tree.get? id).map Node.folded :=
  Array.getElem?_map

@[simp]
theorem parent_folded : tree.folded.parent? = tree.parent? := by
  funext id
  rw [parent?, parent?, get_folded]
  cases tree.get? id <;> rfl

@[simp]
theorem children_folded : tree.folded.children = tree.children := by
  funext id
  rw [children, children, get_folded]
  cases tree.get? id <;> rfl

@[simp]
theorem next_folded : tree.folded.next? = tree.next? := by
  funext id
  rw [next?, next?, get_folded]
  cases tree.get? id <;> rfl

theorem element_folded (id : NodeId) :
    tree.folded.element? id = (tree.element? id).map Element.folded := by
  rw [element?, element?, get_folded]
  rcases tree.get? id with _ | ⟨content, _, _, _, _⟩
  · rfl
  · cases content <;> rfl

@[simp]
theorem is_element_folded : tree.folded.isElement = tree.isElement := by
  funext id
  rw [isElement, isElement, element_folded, Option.isSome_map]

theorem tag_folded (id : NodeId) : tree.folded.tag? id = (tree.tag? id).map Text.foldCase := by
  rw [tag?, tag?, element_folded, Option.map_map, Option.map_map]
  rfl

@[simp]
theorem element_children_folded : tree.folded.elementChildren = tree.elementChildren := by
  funext id
  simp only [elementChildren, children_folded, is_element_folded]

@[simp]
theorem ancestors_folded : tree.folded.ancestors = tree.ancestors := by
  funext id
  simp only [ancestors, parent_folded, size_folded]

@[simp]
theorem following_siblings_folded : tree.folded.followingSiblings = tree.followingSiblings := by
  funext id
  simp only [followingSiblings, next_folded, size_folded]

@[simp]
theorem next_element_sibling_folded :
    tree.folded.nextElementSibling? = tree.nextElementSibling? := by
  funext id
  simp only [nextElementSibling?, following_siblings_folded, is_element_folded]

@[simp]
theorem is_descendant_of_folded : tree.folded.isDescendantOf = tree.isDescendantOf := by
  funext id ancestor
  simp only [isDescendantOf, ancestors_folded]

@[simp]
theorem walk_folded : tree.folded.walk = tree.walk := by
  funext budget pending
  induction budget generalizing pending with
  | zero => rfl
  | succ budget ih =>
      cases pending with
      | nil => rfl
      | cons id pending => simp only [walk, children_folded, is_element_folded, ih]

theorem child_entries_folded : tree.folded.childEntries = tree.childEntries := by
  simp only [childEntries, folded, Array.foldl_map]
  rfl

@[simp]
theorem descendants_folded : tree.folded.descendants = tree.descendants := by
  funext id
  simp only [descendants, walk_folded, children_folded, child_entries_folded]

theorem document_element_folded : tree.folded.documentElement? = tree.documentElement? := by
  funext id
  simp only [documentElement?, top, ancestors_folded, element_children_folded, get_folded]
  rcases tree.get? ((tree.ancestors id).getLast?.getD id) with _ | ⟨content, _, _, _, _⟩
  · rfl
  · cases content <;> rfl

end Tree

theorem Scope.of_folded (tree : Tree) (root : NodeId) :
    Scope.of tree.folded root = (Scope.of tree root).folded := by
  rw [of, of, folded, Tree.descendants_folded, Tree.document_element_folded]

/-! Populations: a type is named by the selector and compared with the tags of the tree. -/

namespace Population

theorem counts_folded (population : Population) (tree : Tree) :
    population.folded.counts tree.folded = population.counts tree := by
  funext id
  rcases population with ⟨_ | tag, _⟩
  · rfl
  · simp only [counts, folded, Option.map_some, Tree.tag_folded, Option.any_map,
      Text.same_name_folded_left, Text.same_name_folded_right]

theorem members_folded (population : Population) (tree : Tree) (parent : NodeId) :
    population.folded.members tree.folded parent = population.members tree parent := by
  simp only [members, counts_folded, Tree.element_children_folded]
  rfl

end Population

theorem sibling_index_folded (tree : Tree) (id : NodeId) (population : Population) :
    siblingIndex? tree.folded id population.folded = siblingIndex? tree id population := by
  simp only [siblingIndex?, Tree.parent_folded, Population.members_folded]

theorem is_first_folded (tree : Tree) (id : NodeId) (population : Population) :
    isFirst tree.folded id population.folded = isFirst tree id population := by
  rw [isFirst, isFirst, sibling_index_folded]

theorem PseudoClass.of_name_fold (name : String) :
    PseudoClass.ofName? (Text.foldCase name) = PseudoClass.ofName? name := by
  rw [ofName?, ofName?, Text.fold_fold]

theorem CountingClass.of_name_fold (name : String) :
    CountingClass.ofName? (Text.foldCase name) = CountingClass.ofName? name := by
  rw [ofName?, ofName?, Text.fold_fold]

theorem CountingClass.population_folded (counting : CountingClass) (tag : String) :
    counting.population (Text.foldCase tag) = (counting.population tag).folded := by
  cases counting <;> rfl

/-! Tests on one element. -/

namespace Scope

section
variable (scope : Scope) (hint : Option String) (id : NodeId)

theorem in_class_folded (tag : String) (pseudoClass : PseudoClass) :
    scope.folded.inClass id (Text.foldCase tag) pseudoClass = scope.inClass id tag pseudoClass := by
  -- A population of the folded tag is the folded population already by definition.
  have first := is_first_folded scope.tree id
  cases pseudoClass with
  | root => rfl
  | firstChild => exact first .children
  | lastChild => exact first Population.children.reversed
  | firstOfType => exact first (.ofTag tag)
  | lastOfType => exact first (Population.ofTag tag).reversed
  | onlyChild => exact congrArg₂ and (first .children) (first Population.children.reversed)
  | onlyOfType => exact congrArg₂ and (first (.ofTag tag)) (first (Population.ofTag tag).reversed)
  | empty => simp only [inClass, folded, Tree.element_children_folded]

theorem counted_tag_folded :
    scope.folded.countedTag? (hint.map Text.foldCase) id =
      (scope.countedTag? hint id).map Text.foldCase := by
  cases hint with
  | none => exact Tree.tag_folded scope.tree id
  | some tag => rfl

theorem in_pseudo_class_folded (name : String) :
    scope.folded.inPseudoClass (hint.map Text.foldCase) id (Text.foldCase name) =
      scope.inPseudoClass hint id name := by
  rw [inPseudoClass, inPseudoClass, counted_tag_folded, PseudoClass.of_name_fold]
  cases scope.countedTag? hint id with
  | none => rfl
  | some tag =>
      cases PseudoClass.ofName? name with
      | none => rfl
      | some pseudoClass => exact scope.in_class_folded id tag pseudoClass

theorem in_function_folded (name : String) (argument : Argument) :
    scope.folded.inFunction (hint.map Text.foldCase) id (Text.foldCase name) argument =
      scope.inFunction hint id name argument := by
  rw [inFunction, inFunction, counted_tag_folded, CountingClass.of_name_fold]
  cases scope.countedTag? hint id with
  | none => rfl
  | some tag =>
      cases CountingClass.ofName? name with
      | none => rfl
      | some counting =>
          cases argument.formula with
          | none => rfl
          | some formula =>
              simp only [Option.map_some, CountingClass.population_folded]
              rw [folded, sibling_index_folded]

theorem is_element_folded : scope.folded.tree.isElement id = scope.tree.isElement id := by
  rw [folded, Tree.is_element_folded]

theorem has_type_folded (name : String) :
    scope.folded.hasType id (Text.foldCase name) = scope.hasType id name := by
  simp only [hasType, folded, Tree.tag_folded, Option.any_map,
    Text.same_name_folded_left, Text.same_name_folded_right]

theorem passes_base_folded (base : Option Base) :
    scope.folded.passesBase id (base.map Base.folded) = scope.passesBase id base := by
  cases base with
  | none => exact scope.is_element_folded id
  | some base =>
      cases base with
      | type name => exact scope.has_type_folded id name
      | universal => exact scope.is_element_folded id

theorem element_passes_folded {test test' : Element → Bool}
    (same : ∀ element, test element.folded = test' element) :
    scope.folded.elementPasses id test = scope.elementPasses id test' := by
  rw [elementPasses, elementPasses, folded, Tree.element_folded, Option.any_map]
  exact congrArg (Option.any · _) (funext same)

end

end Scope

section
variable (scope : Scope) (hint : Option String) (id : NodeId)

mutual
theorem accepts_folded : (test : Simple) →
    test.folded.accepts scope.folded (hint.map Text.foldCase) id = test.accepts scope hint id
  | .cls name => scope.element_passes_folded id fun element => by rw [element.classes_folded]
  | .hash name => scope.element_passes_folded id fun element => by
      rw [element.named_folded, List.any_map]
      rfl
  | .attribute test => scope.element_passes_folded id test.accepts_folded
  | .pseudo name .pseudoClass => by
      rw [Simple.folded, Simple.accepts, Simple.accepts, scope.is_element_folded,
        scope.in_pseudo_class_folded]
  | .pseudo _ .pseudoElement => rfl
  | .functional name argument => by
      rw [Simple.folded, Simple.accepts, Simple.accepts, scope.is_element_folded,
        scope.in_function_folded]
  | .notOne item => by
      rw [Simple.folded, Simple.accepts, Simple.accepts, scope.is_element_folded,
        item_accepts_folded item]
  | .notAny items => by
      rw [Simple.folded, Simple.accepts, Simple.accepts, scope.is_element_folded,
        any_accepts_folded items]
  | .has _ _ => rfl

theorem item_accepts_folded : (item : Negatable) →
    item.folded.accepts scope.folded (hint.map Text.foldCase) id = item.accepts scope hint id
  | .type name => scope.has_type_folded id name
  | .universal => scope.is_element_folded id
  | .simple test => accepts_folded test

theorem any_accepts_folded : (items : List Negatable) →
    anyAccepts scope.folded (hint.map Text.foldCase) id (foldedNegatables items) =
      anyAccepts scope hint id items
  | [] => rfl
  | item :: rest => by
      rw [foldedNegatables, anyAccepts, anyAccepts, item_accepts_folded item,
        any_accepts_folded rest]
end

end

/-! Sets of elements. -/

namespace Scope

section
variable (scope : Scope)

theorem passing_folded (hint : Option String) (filters : List Simple)
    (candidates : List NodeId) :
    scope.folded.passing (hint.map Text.foldCase) (foldedSimples filters) candidates =
      scope.passing hint filters candidates := by
  unfold passing
  induction filters generalizing candidates with
  | nil => rfl
  | cons test rest ih =>
      simp only [foldedSimples, List.foldl_cons, accepts_folded]
      exact ih _

theorem hint_folded (base : Option Base) :
    Base.hint? (base.map Base.folded) = (Base.hint? base).map Text.foldCase := by
  rcases base with _ | _ | _ <;> rfl

theorem compound_folded (base : Option Base) (filters : List Simple)
    (candidates : List NodeId) :
    scope.folded.compound (base.map Base.folded) (foldedSimples filters) candidates =
      scope.compound base filters candidates := by
  simp only [compound, hint_folded, passing_folded, passes_base_folded]

theorem below_uncovered_folded (covered : Option NodeId) (left : List NodeId) :
    scope.folded.belowUncovered covered left = scope.belowUncovered covered left := by
  induction left generalizing covered with
  | nil => rfl
  | cons id rest ih =>
      simp only [belowUncovered, ih]
      simp only [folded, Tree.is_descendant_of_folded, Tree.descendants_folded]

theorem later_siblings_folded (reached left : List NodeId) :
    scope.folded.laterSiblings reached left = scope.laterSiblings reached left := by
  induction left generalizing reached with
  | nil => rfl
  | cons id rest ih =>
      simp only [laterSiblings, ih]
      simp only [folded, Tree.following_siblings_folded, Tree.is_element_folded]

theorem reach_folded (combinator : Combinator) (left : List NodeId) :
    scope.folded.reach combinator left = scope.reach combinator left := by
  cases combinator with
  | descendant => exact scope.below_uncovered_folded none left
  | child => simp only [reach, folded, Tree.element_children_folded]
  | nextSibling => simp only [reach, folded, Tree.next_element_sibling_folded]
  | subsequentSibling => exact scope.later_siblings_folded [] left

theorem in_document_order_folded (ids : List NodeId) :
    scope.folded.inDocumentOrder ids = scope.inDocumentOrder ids := by
  have ranks : scope.folded.ranks = scope.ranks := by
    simp only [Scope.ranks, folded, Tree.size_folded]
  rw [inDocumentOrder, inDocumentOrder, ranks]
  rfl

theorem frontier_folded (combinator : Combinator) (left : List NodeId) :
    scope.folded.frontier combinator left = scope.frontier combinator left := by
  rw [frontier, frontier, reach_folded, in_document_order_folded]

mutual
theorem select_folded : (selector : Selector) → (candidates : List NodeId) →
    scope.folded.select selector.folded candidates = scope.select selector candidates
  | .group alternatives, candidates => by
      rw [Selector.folded, select, select, select_each_folded alternatives]
  | .joined left combinator right, candidates => by
      rw [Selector.folded, select, select, select_folded left, frontier_folded,
        select_folded right]
  | .compound base filters, candidates => by
      rw [Selector.folded, select, select, compound_folded]

theorem select_each_folded : (alternatives : List Selector) → (candidates : List NodeId) →
    scope.folded.selectEach (foldedSelectors alternatives) candidates =
      scope.selectEach alternatives candidates
  | [], _ => rfl
  | first :: rest, candidates => by
      rw [foldedSelectors, selectEach, selectEach, select_folded first, select_each_folded rest]
end

end

end Scope

/-- Evaluation goes the same way with all names in small letters. -/
theorem evaluate_folded (selector : Selector) (tree : Tree) (root : NodeId) :
    evaluate selector.folded tree.folded root = evaluate selector tree root := by
  rw [evaluate, evaluate, Scope.of_folded]
  exact Scope.select_folded _ selector _

/-! Values. -/

theorem Text.length_of_fold {left right : String} (same : foldCase left = foldCase right) :
    left.toList.length = right.toList.length := by
  have letters := congrArg (fun name => name.toList.length) same
  simpa [foldCase] using letters

/-- A simple selector apart from the value that it compares with. -/
inductive ValueTest where
  | cls
  | hash
  | named (name : String) (operator : AttributeOperator)

namespace ValueTest

def simple : ValueTest → String → Simple
  | .cls, value => .cls value
  | .hash, value => .hash value
  | .named name operator, value => .attribute ⟨name, operator, some value⟩

/-- The attribute that the value is looked for in. -/
def looksAt : ValueTest → String
  | .cls => "class"
  | .hash => "id"
  | .named name _ => name

def operator : ValueTest → AttributeOperator
  | .cls => .includes
  | .hash => .equals
  | .named _ operator => operator

/-- There is an attribute to look at, and a value decides. -/
def Compares (test : ValueTest) : Prop := test.looksAt ≠ "" ∧ test.operator ≠ .present

end ValueTest

theorem Element.named_alone (tag name value : String) :
    Element.named ⟨tag, [⟨name, value⟩]⟩ name = [⟨name, value⟩] := by
  simp [named, Text.same_name_refl]

theorem value_test_accepts {test : ValueTest} (compares : test.Compares) (query : String)
    {scope : Scope} {hint : Option String} {id : NodeId} {tag value : String}
    (known : scope.tree.element? id = some ⟨tag, [⟨test.looksAt, value⟩]⟩) :
    (test.simple query).accepts scope hint id = test.operator.accepts value query := by
  have passes : ∀ check, scope.elementPasses id check =
      check ⟨tag, [⟨test.looksAt, value⟩]⟩ := by
    intro check
    rw [Scope.elementPasses, known, Option.any_some]
  cases test with
  | cls =>
      rw [ValueTest.simple, Simple.accepts, passes]
      show (Element.classes ⟨tag, [⟨"class", value⟩]⟩).contains query = _
      rw [Element.classes, Element.named_alone, List.flatMap_singleton]
      rfl
  | hash =>
      rw [ValueTest.simple, Simple.accepts, passes]
      show (Element.named ⟨tag, [⟨"id", value⟩]⟩ "id").any _ = _
      rw [Element.named_alone, List.any_cons, List.any_nil, Bool.or_false]
      rfl
  | named name operator =>
      have given : (name != "") = true := bne_iff_ne.mpr compares.1
      rw [ValueTest.simple, Simple.accepts, passes]
      show (name != "" && (Element.named ⟨tag, [⟨name, value⟩]⟩ name).any _) = _
      rw [given, Bool.true_and, Element.named_alone, List.any_cons, List.any_nil, Bool.or_false]
      rfl

/-- The document with one element, which has one attribute. -/
def oneAttribute (name value : String) : Tree :=
  Tree.empty.append Tree.rootId (.element ⟨"a", [⟨name, value⟩]⟩)

theorem one_attribute_listed (name value : String) :
    (Scope.of (oneAttribute name value) Tree.rootId).fullSet = [1] := by
  cbv

theorem evaluate_one_attribute {test : ValueTest} (compares : test.Compares)
    (value query : String) :
    evaluate (.compound none [test.simple query]) (oneAttribute test.looksAt value) Tree.rootId =
      if test.operator.accepts value query then [1] else [] := by
  have element : (oneAttribute test.looksAt value).isElement 1 = true := rfl
  have accepts := @value_test_accepts test compares query
    (Scope.of (oneAttribute test.looksAt value) Tree.rootId) none 1 "a" value rfl
  rw [evaluate, Scope.evaluate, Scope.select, Scope.compound, one_attribute_listed]
  simp only [Scope.passing, Scope.passesBase, Base.hint?, List.foldl_cons, List.foldl_nil]
  rw [List.filter_cons_of_pos (by exact element), List.filter_nil, List.filter_cons, accepts]
  rfl

theorem AttributeOperator.respelled_not_accepted {operator : AttributeOperator}
    {value other : String} (compares : operator ≠ .present)
    (same : Text.foldCase value = Text.foldCase other) (different : value ≠ other) :
    operator.accepts value other = false := by
  rw [Bool.eq_false_iff]
  intro accepted
  -- A text of the same length that stands in the other is the other.
  have inside := infix_of_accepts compares accepted
  exact different (String.toList_inj.mp (inside.eq_of_length (Text.length_of_fold same).symm)).symm

/-! Main result. -/

/-- Two selectors that differ in the letter case of names only find the same elements in the same
order, also in two trees that differ in nothing else. Of two values that differ in letter case only,
each test that compares values finds the one in itself and does not find the other in it. -/
theorem letter_case_of_names_and_values :
    (∀ (selector respelled : Selector) (tree renamed : Tree) (root : NodeId),
      selector.folded = respelled.folded → tree.folded = renamed.folded →
        evaluate respelled renamed root = evaluate selector tree root) ∧
    ∀ test : ValueTest, test.Compares → ∀ value other : String,
      Text.foldCase value = Text.foldCase other → value ≠ other →
      (test.operator = .includes → ∀ c ∈ value.toList, Text.isAsciiBlank c = false) →
        evaluate (.compound none [test.simple value]) (oneAttribute test.looksAt value)
            Tree.rootId = [1] ∧
          evaluate (.compound none [test.simple other]) (oneAttribute test.looksAt value)
            Tree.rootId = [] := by
  constructor
  · intro selector respelled tree renamed root sameNames sameTree
    -- Both evaluations are the one with all names in small letters.
    rw [← evaluate_folded selector, ← evaluate_folded respelled, sameNames, sameTree]
  · intro test compares value other same different whole
    have filled : value ≠ "" := by
      rintro rfl
      have none : other.toList.length = 0 := (Text.length_of_fold same).symm
      exact different (String.toList_inj.mp (List.length_eq_zero_iff.mp none)).symm
    have found := AttributeOperator.accepts_self filled whole
    have missed := AttributeOperator.respelled_not_accepted compares.2 same different
    rw [evaluate_one_attribute compares, evaluate_one_attribute compares, found, missed]
    exact ⟨rfl, rfl⟩

/-- A list of two items, with names in mixed letter case and in small letters. -/
def mixedList : Tree :=
  ((Tree.empty.append Tree.rootId (.element ⟨"UL", [⟨"CLASS", "Big"⟩]⟩)).append 1
    (.element ⟨"Li", []⟩)).append 1 (.element ⟨"lI", [⟨"Title", "x"⟩]⟩)

def smallList : Tree :=
  ((Tree.empty.append Tree.rootId (.element ⟨"ul", [⟨"class", "Big"⟩]⟩)).append 1
    (.element ⟨"li", []⟩)).append 1 (.element ⟨"li", [⟨"title", "x"⟩]⟩)

/-- `uL.Big, LI:Nth-Of-Type(2):not(Ol, [LANG])`, and the same in small letters. -/
def mixedItem : Selector :=
  .group [.compound (some (.type "uL")) [.cls "Big"],
    .compound (some (.type "LI")) [.functional "Nth-Of-Type" (.integer 2),
      .notAny [.type "Ol", .simple (.attribute ⟨"LANG", .present, none⟩)]]]

def smallItem : Selector :=
  .group [.compound (some (.type "ul")) [.cls "Big"],
    .compound (some (.type "li")) [.functional "nth-of-type" (.integer 2),
      .notAny [.type "ol", .simple (.attribute ⟨"lang", .present, none⟩)]]]

theorem mixed_item_found :
    smallItem.folded = mixedItem.folded ∧ smallList.folded = mixedList.folded ∧
      evaluate mixedItem mixedList 0 = [1, 3] ∧
      ValueTest.cls.Compares ∧ Text.foldCase "Big" = Text.foldCase "big" ∧
      evaluate (.compound none [.cls "Big"]) (oneAttribute "class" "Big") 0 = [1] ∧
      evaluate (.compound none [.cls "big"]) (oneAttribute "class" "Big") 0 = [] := by
  have sameNames : smallItem.folded = mixedItem.folded := by cbv
  have sameTree : smallList.folded = mixedList.folded := by cbv
  have found : evaluate smallItem smallList 0 = [1, 3] := by decide +kernel
  have compares : ValueTest.cls.Compares := ⟨by decide, by decide⟩
  have sameValue : Text.foldCase "Big" = Text.foldCase "big" := by cbv
  have whole : ∀ c ∈ "Big".toList, Text.isAsciiBlank c = false := by
    simp [Text.isAsciiBlank]
  obtain ⟨names, values⟩ := letter_case_of_names_and_values
  have renamed := names smallItem mixedItem smallList mixedList 0 sameNames sameTree
  have told := values .cls compares "Big" "big" sameValue (by decide) fun _ => whole
  exact ⟨sameNames, sameTree, renamed.trans found, compares, sameValue, told.1, told.2⟩

end TreeSelect
