import TreeSelect.Matching

/-!
Elements that are judged alike. A test looks at the data of an element and asks which classes and
functions it is in; negations put such tests together and look at nothing else. So where these are
the same for two elements, in one scope or in two and whatever the hints, the same tests pass and
the same warnings come up on the way.
-/

namespace TreeSelect

/-- All that a test looks at is the same for both elements. -/
structure Scope.JudgesAlike (left right : Scope) (hint hint' : Option String)
    (first second : NodeId) : Prop where
  data : left.tree.element? first = right.tree.element? second
  inClass : ∀ name, left.inPseudoClass hint first name = right.inPseudoClass hint' second name
  inFunction : ∀ name argument,
    left.inFunction hint first name argument = right.inFunction hint' second name argument

namespace Scope.JudgesAlike

variable {left right : Scope} {hint hint' : Option String} {first second : NodeId}

section
variable (alike : JudgesAlike left right hint hint' first second)
include alike

theorem is_element : left.tree.isElement first = right.tree.isElement second := by
  rw [Tree.isElement, Tree.isElement, alike.data]

theorem has_type (name : String) : left.hasType first name = right.hasType second name := by
  rw [Scope.hasType, Scope.hasType, Tree.tag?, Tree.tag?, alike.data]

theorem element_passes (test : Element → Bool) :
    left.elementPasses first test = right.elementPasses second test := by
  rw [Scope.elementPasses, Scope.elementPasses, alike.data]

theorem passes_base (base : Option Base) :
    left.passesBase first base = right.passesBase second base := by
  cases base with
  | none => exact alike.is_element
  | some base =>
      cases base with
      | type name => exact alike.has_type name
      | universal => exact alike.is_element

end

mutual
theorem accepts (alike : JudgesAlike left right hint hint' first second) : (test : Simple) →
    test.accepts left hint first = test.accepts right hint' second
  | .cls _ => alike.element_passes _
  | .hash _ => alike.element_passes _
  | .attribute _ => alike.element_passes _
  | .pseudo name .pseudoClass => by
      rw [Simple.accepts, Simple.accepts, alike.is_element, alike.inClass]
  | .pseudo _ .pseudoElement => rfl
  | .functional name argument => by
      rw [Simple.accepts, Simple.accepts, alike.is_element, alike.inFunction]
  | .notOne item => by
      rw [Simple.accepts, Simple.accepts, alike.is_element, item_accepts alike item]
  | .notAny items => by
      rw [Simple.accepts, Simple.accepts, alike.is_element, any_accepts alike items]
  | .has _ _ => rfl

theorem item_accepts (alike : JudgesAlike left right hint hint' first second) :
    (item : Negatable) → item.accepts left hint first = item.accepts right hint' second
  | .type name => alike.has_type name
  | .universal => alike.is_element
  | .simple test => accepts alike test

theorem any_accepts (alike : JudgesAlike left right hint hint' first second) :
    (items : List Negatable) →
      anyAccepts left hint first items = anyAccepts right hint' second items
  | [] => rfl
  | item :: rest => by
      rw [anyAccepts, anyAccepts, item_accepts alike item, any_accepts alike rest]
end

-- Which warnings come up depends on the items of a negation that are come to.
mutual
theorem warnings (alike : JudgesAlike left right hint hint' first second) : (test : Simple) →
    test.warnings left hint first = test.warnings right hint' second
  | .cls _ => rfl
  | .hash _ => rfl
  | .attribute _ => rfl
  | .pseudo _ .pseudoClass => rfl
  | .pseudo _ .pseudoElement => rfl
  | .functional _ _ => rfl
  | .notOne item => by
      rw [Simple.warnings, Simple.warnings, item_warnings alike item]
  | .notAny items => by
      rw [Simple.warnings, Simple.warnings, items_warnings alike items]
  | .has _ _ => rfl

theorem item_warnings (alike : JudgesAlike left right hint hint' first second) :
    (item : Negatable) → item.warnings left hint first = item.warnings right hint' second
  | .type _ => rfl
  | .universal => rfl
  | .simple test => warnings alike test

theorem items_warnings (alike : JudgesAlike left right hint hint' first second) :
    (items : List Negatable) →
      negatablesWarnings left hint first items = negatablesWarnings right hint' second items
  | [] => rfl
  | item :: rest => by
      rw [negatablesWarnings, negatablesWarnings, item_warnings alike item,
        alike.item_accepts item, items_warnings alike rest]
end

end Scope.JudgesAlike
end TreeSelect
