import Mathlib.Data.List.Forall2
import TreeSelect.Matching
import TreeSelect.Proofs.Combinators
import TreeSelect.Proofs.Judgement

/-!
Evaluation on two trees side by side. Where the elements of two scopes are paired off so that
both of a pair pass the same tests, every selector finds paired elements, in the same order on
both sides. Evaluation sees nothing of a node but what is compared here: no number of a node and
no node that is not an element.
-/

namespace TreeSelect

/-- The elements of two scopes in pairs, and all that a selector can ask about them. -/
structure Scope.Corresponds (left right : Scope) (twin : NodeId → NodeId → Prop) : Prop where
  unique : Relator.BiUnique twin
  listing : List.Forall₂ twin left.fullSet right.fullSet
  listed : ∀ {first second}, twin first second → first ∈ left.fullSet ∧ second ∈ right.fullSet
  data : ∀ {first second}, twin first second →
    left.tree.element? first = right.tree.element? second
  leaf : ∀ {first second}, twin first second →
    (left.tree.elementChildren first).isEmpty = (right.tree.elementChildren second).isEmpty
  place : ∀ {first second}, twin first second → ∀ population,
    siblingIndex? left.tree first population = siblingIndex? right.tree second population
  root : ∀ {first second}, twin first second →
    (left.documentElement = some first ↔ right.documentElement = some second)
  reaches : ∀ {high high' low low'}, twin high high' → twin low low' →
    ∀ combinator : Combinator,
      combinator.Reaches left.tree high low ↔ combinator.Reaches right.tree high' low'

namespace Scope.Corresponds

/-! Tests on one element. -/

section
variable {left right : Scope} {twin : NodeId → NodeId → Prop} {first second : NodeId}

theorem tag_eq (alike : Corresponds left right twin) (pair : twin first second) :
    left.tree.tag? first = right.tree.tag? second := by
  rw [Tree.tag?, Tree.tag?, alike.data pair]

theorem in_class_eq (alike : Corresponds left right twin) (pair : twin first second)
    (tag : String) (pseudoClass : PseudoClass) :
    left.inClass first tag pseudoClass = right.inClass second tag pseudoClass := by
  cases pseudoClass with
  | root =>
      rw [Scope.inClass, Scope.inClass, Bool.eq_iff_iff, beq_iff_eq, beq_iff_eq]
      exact alike.root pair
  | empty => exact alike.leaf pair
  | _ => simp only [Scope.inClass, isFirst, alike.place pair]

theorem in_pseudo_class_eq (alike : Corresponds left right twin) (pair : twin first second)
    (hint : Option String) (name : String) :
    left.inPseudoClass hint first name = right.inPseudoClass hint second name := by
  simp only [Scope.inPseudoClass, Scope.countedTag?, alike.tag_eq pair, alike.in_class_eq pair]

theorem in_function_eq (alike : Corresponds left right twin) (pair : twin first second)
    (hint : Option String) (name : String) (argument : Argument) :
    left.inFunction hint first name argument = right.inFunction hint second name argument := by
  simp only [Scope.inFunction, Scope.countedTag?, alike.tag_eq pair, alike.place pair]

theorem judges (alike : Corresponds left right twin) (pair : twin first second)
    (hint : Option String) : left.JudgesAlike right hint hint first second where
  data := alike.data pair
  inClass := alike.in_pseudo_class_eq pair hint
  inFunction := alike.in_function_eq pair hint

/-! Lists of paired elements. -/

variable {ids ids' : List NodeId}

theorem filter (pairs : List.Forall₂ twin ids ids') {test test' : NodeId → Bool}
    (same : ∀ {first second}, twin first second → test first = test' second) :
    List.Forall₂ twin (ids.filter test) (ids'.filter test') := by
  apply List.rel_filter _ pairs
  intro first second pair
  simp only [same pair]

theorem passing (alike : Corresponds left right twin) (hint : Option String)
    (filters : List Simple) (pairs : List.Forall₂ twin ids ids') :
    List.Forall₂ twin (left.passing hint filters ids) (right.passing hint filters ids') := by
  unfold Scope.passing
  induction filters generalizing ids ids' with
  | nil => exact pairs
  | cons test rest ih => exact ih (filter pairs fun pair => (alike.judges pair hint).accepts test)

theorem compound (alike : Corresponds left right twin) (base : Option Base)
    (filters : List Simple) (pairs : List.Forall₂ twin ids ids') :
    List.Forall₂ twin (left.compound base filters ids) (right.compound base filters ids') :=
  alike.passing _ filters (filter pairs fun pair => (alike.judges pair none).passes_base base)

/-- Where an element was seen before, so was the one that it is paired with. -/
theorem erase_dups (alike : Corresponds left right twin) (pairs : List.Forall₂ twin ids ids') :
    List.Forall₂ twin ids.eraseDups ids'.eraseDups := by
  induction size : ids.length using Nat.strongRecOn generalizing ids ids' with
  | ind size ih =>
      cases pairs with
      | nil => exact .nil
      | @cons first second rest rest' pair pairs =>
          have others : List.Forall₂ twin (rest.filter fun other => !other == first)
              (rest'.filter fun other => !other == second) := by
            apply filter pairs
            intro other other' pair'
            have same := Relator.rel_eq alike.unique pair' pair
            rw [Bool.eq_iff_iff]
            simpa using not_congr same
          have shorter := List.length_filter_le (fun other => !other == first) rest
          rw [List.length_cons] at size
          rw [List.eraseDups_cons, List.eraseDups_cons]
          exact .cons pair (ih _ (by omega) others rfl)

theorem exists_reaches (alike : Corresponds left right twin) {low low' : NodeId}
    (pairs : List.Forall₂ twin ids ids') (pair : twin low low') (combinator : Combinator) :
    (∃ high ∈ ids, combinator.Reaches left.tree high low) ↔
      ∃ high ∈ ids', combinator.Reaches right.tree high low' := by
  induction pairs with
  | nil => simp
  | cons here _ ih =>
      simp only [List.mem_cons, exists_eq_or_imp, alike.reaches here pair, ih]

end

/-! Evaluation. -/

section
variable {left right : Tree} {root root' : NodeId} {twin : NodeId → NodeId → Prop}
variable {ids ids' : List NodeId}

theorem members (alike : Corresponds (Scope.of left root) (Scope.of right root') twin)
    (pairs : List.Forall₂ twin ids ids') :
    (∀ id ∈ ids, id ∈ left.descendants root) ∧ ∀ id ∈ ids', id ∈ right.descendants root' := by
  induction pairs with
  | nil => simp
  | cons pair _ ih =>
      have here := alike.listed pair
      exact ⟨List.forall_mem_cons.mpr ⟨here.1, ih.1⟩, List.forall_mem_cons.mpr ⟨here.2, ih.2⟩⟩

/-- The frontier is the part of each scope that is reached, and the same pairs are. -/
theorem frontier (alike : Corresponds (Scope.of left root) (Scope.of right root') twin)
    (linked : left.Linked) (linked' : right.Linked) (combinator : Combinator)
    (pairs : List.Forall₂ twin ids ids') :
    List.Forall₂ twin ((Scope.of left root).frontier combinator ids)
      ((Scope.of right root').frontier combinator ids') := by
  obtain ⟨inside, inside'⟩ := alike.members pairs
  rw [frontier_eq linked combinator inside, frontier_eq linked' combinator inside']
  apply filter alike.listing
  intro low low' pair
  have reached := @mem_reach (Scope.of left root) root linked combinator ids inside low
  have reached' := @mem_reach (Scope.of right root') root' linked' combinator ids' inside' low'
  rw [Bool.eq_iff_iff, List.contains_iff_mem, List.contains_iff_mem, reached, reached']
  exact alike.exists_reaches pairs pair combinator

mutual
theorem select (alike : Corresponds (Scope.of left root) (Scope.of right root') twin)
    (linked : left.Linked) (linked' : right.Linked) : (selector : Selector) →
      {ids ids' : List NodeId} → List.Forall₂ twin ids ids' →
        List.Forall₂ twin ((Scope.of left root).select selector ids)
          ((Scope.of right root').select selector ids')
  | .group alternatives, _, _, pairs => by
      rw [Scope.select, Scope.select]
      exact alike.erase_dups (select_each alike linked linked' alternatives pairs)
  | .joined before combinator after, _, _, pairs => by
      have found := select alike linked linked' before pairs
      rw [Scope.select, Scope.select]
      exact select alike linked linked' after
        (alike.frontier linked linked' combinator found)
  | .compound base filters, _, _, pairs => by
      rw [Scope.select, Scope.select]
      exact alike.compound base filters pairs

theorem select_each (alike : Corresponds (Scope.of left root) (Scope.of right root') twin)
    (linked : left.Linked) (linked' : right.Linked) : (alternatives : List Selector) →
      {ids ids' : List NodeId} → List.Forall₂ twin ids ids' →
        List.Forall₂ twin ((Scope.of left root).selectEach alternatives ids)
          ((Scope.of right root').selectEach alternatives ids')
  | [], _, _, _ => by
      rw [Scope.selectEach, Scope.selectEach]
      exact .nil
  | first :: rest, _, _, pairs => by
      rw [Scope.selectEach, Scope.selectEach]
      exact List.rel_append (select alike linked linked' first pairs)
        (select_each alike linked linked' rest pairs)
end

theorem evaluate (alike : Corresponds (Scope.of left root) (Scope.of right root') twin)
    (linked : left.Linked) (linked' : right.Linked) (selector : Selector) :
    List.Forall₂ twin (TreeSelect.evaluate selector left root)
      (TreeSelect.evaluate selector right root') :=
  alike.select linked linked' selector alike.listing

end

end Scope.Corresponds
end TreeSelect
