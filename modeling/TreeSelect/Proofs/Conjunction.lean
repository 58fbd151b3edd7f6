import Mathlib.Data.List.Basic
import TreeSelect.Proofs.Warnings

/-!
Filters of a compound. Each filter narrows what the ones before it have left, and every element
is judged by itself, whatever else is left: so a compound keeps those candidates that pass its base
and all of its filters, in whatever order and however often these are given. Only elements come as
far as the filters. For them a negation is the opposite of its item, one of several items holds
where those of the single items do, and a filter and its negation part what is left in two.

The tree need not be well formed, nor the candidates be in order or be there once.
-/

namespace TreeSelect

/-! Lists that are merged, each of them in its order. -/

inductive Merges {α : Type} : List α → List α → List α → Prop where
  | nil : Merges [] [] []
  | left {first second whole : List α} {item : α} :
      Merges first second whole → Merges (item :: first) second (item :: whole)
  | right {first second whole : List α} {item : α} :
      Merges first second whole → Merges first (item :: second) (item :: whole)

section
variable {α : Type} (keep : α → Bool) (whole : List α)

theorem merges_parts : Merges (whole.filter keep) (whole.filter fun item => !keep item) whole := by
  induction whole with
  | nil => exact .nil
  | cons item rest ih =>
      by_cases kept : keep item = true
      · rw [List.filter_cons_of_pos kept, List.filter_cons_of_neg (by simp [kept])]
        exact ih.left
      · rw [List.filter_cons_of_neg kept, List.filter_cons_of_pos (by simp [kept])]
        exact ih.right

theorem parts_disjoint : (whole.filter keep).Disjoint (whole.filter fun item => !keep item) := by
  intro item inFirst inSecond
  have kept := (List.mem_filter.mp inFirst).2
  have lost := (List.mem_filter.mp inSecond).2
  rw [kept] at lost
  cases lost

end

/-! Narrowing by several filters. -/

section
variable (scope : Scope) (hint : Option String)

theorem passing_append (before after : List Simple) (candidates : List NodeId) :
    scope.passing hint (before ++ after) candidates =
      scope.passing hint after (scope.passing hint before candidates) :=
  List.foldl_append

theorem passing_eq (filters : List Simple) (candidates : List NodeId) :
    scope.passing hint filters candidates =
      candidates.filter fun id => filters.all fun filter => filter.accepts scope hint id := by
  induction filters generalizing candidates with
  | nil => exact (List.filter_eq_self.mpr fun _ _ => rfl).symm
  | cons first rest ih =>
      calc scope.passing hint (first :: rest) candidates
        _ = scope.passing hint rest (candidates.filter (first.accepts scope hint ·)) := rfl
        _ = _ := by
          rw [ih, List.filter_filter]
          apply List.filter_congr
          intro id _
          rw [List.all_cons, Bool.and_comm]

theorem passing_of_same_filters {filters other : List Simple}
    (same : ∀ filter, filter ∈ other ↔ filter ∈ filters) (candidates : List NodeId) :
    scope.passing hint other candidates = scope.passing hint filters candidates := by
  rw [passing_eq, passing_eq]
  apply List.filter_congr
  intro id _
  rw [Bool.eq_iff_iff, List.all_eq_true, List.all_eq_true]
  constructor
  · exact fun all filter member => all filter ((same filter).mpr member)
  · exact fun all filter member => all filter ((same filter).mp member)

end

/-! Negations, which only elements pass. -/

section
variable {scope : Scope} {hint : Option String} {id : NodeId}

theorem not_one_accepts (element : scope.tree.isElement id = true) (item : Negatable) :
    (Simple.notOne item).accepts scope hint id = !item.accepts scope hint id := by
  rw [Simple.accepts, element, Bool.true_and]

theorem not_any_accepts (element : scope.tree.isElement id = true) (items : List Negatable) :
    (Simple.notAny items).accepts scope hint id =
      (items.map Simple.notOne).all fun filter => filter.accepts scope hint id := by
  rw [Simple.accepts, element, Bool.true_and]
  -- The group stops at the first item that matches, where the single negations fail as well.
  induction items with
  | nil => rfl
  | cons first rest ih =>
      rw [anyAccepts, Bool.not_or, ih, List.map_cons, List.all_cons, not_one_accepts element]

end

/-- Tests that pass nothing: classes and functions that are warned about, pseudo-elements,
and `:has()`. -/
def Simple.isUnsupported : Simple → Bool
  | .pseudo name .pseudoClass => (pseudoClassWarning? name).isSome
  | .pseudo _ .pseudoElement => true
  | .functional name argument => (functionWarning? name argument).isSome
  | .has _ _ => true
  | _ => false

theorem PseudoClass.unknown_of_warning {name : String}
    (warned : (pseudoClassWarning? name).isSome = true) : PseudoClass.ofName? name = none := by
  rw [pseudoClassWarning?] at warned
  cases known : PseudoClass.ofName? name with
  | none => rfl
  | some pseudoClass =>
      rw [known] at warned
      cases warned

theorem function_unknown_of_warning {name : String} {argument : Argument}
    (warned : (functionWarning? name argument).isSome = true) :
    CountingClass.ofName? name = none ∨ argument.formula = none := by
  rw [functionWarning?] at warned
  cases known : CountingClass.ofName? name with
  | none => exact .inl rfl
  | some counting =>
      cases counted : argument.formula with
      | none => exact .inr rfl
      | some formula =>
          rw [known, counted] at warned
          cases warned

theorem unsupported_not_accepted {test : Simple} (unsupported : test.isUnsupported = true)
    (scope : Scope) (hint : Option String) (id : NodeId) :
    test.accepts scope hint id = false := by
  cases test with
  | pseudo name kind =>
      cases kind with
      | pseudoElement => rfl
      | pseudoClass =>
          have unknown := PseudoClass.unknown_of_warning unsupported
          rw [Simple.accepts, Scope.inPseudoClass, unknown]
          cases scope.countedTag? hint id <;> exact Bool.and_false _
  | functional name argument =>
      rw [Simple.accepts, Scope.inFunction]
      rcases function_unknown_of_warning unsupported with unknown | unknown
      · rw [unknown]
        cases scope.countedTag? hint id <;> exact Bool.and_false _
      · rw [unknown]
        cases scope.countedTag? hint id <;> cases CountingClass.ofName? name <;>
          exact Bool.and_false _
  | has combinator argument => rfl
  | _ => cases unsupported

/-! Compounds. -/

section
variable (scope : Scope) (base : Option Base) (filters : List Simple) (candidates : List NodeId)

theorem element_of_compound {id : NodeId} (member : id ∈ scope.compound base filters candidates) :
    scope.tree.isElement id = true :=
  element_of_base ((mem_compound_iff candidates id).mp member).2.1

theorem compound_append (more : List Simple) :
    scope.compound base (filters ++ more) candidates =
      scope.passing (Base.hint? base) more (scope.compound base filters candidates) :=
  passing_append scope _ filters more _

theorem compound_append_one (test : Simple) :
    scope.compound base (filters ++ [test]) candidates =
      (scope.compound base filters candidates).filter (test.accepts scope (Base.hint? base) ·) :=
  compound_append scope base filters candidates [test]

theorem compound_append_negation (test : Simple) :
    scope.compound base (filters ++ [.notOne (.simple test)]) candidates =
      (scope.compound base filters candidates).filter fun id =>
        !test.accepts scope (Base.hint? base) id := by
  rw [compound_append_one]
  apply List.filter_congr
  intro id member
  -- What the filters before have left are elements, since the base asks for them.
  exact not_one_accepts (element_of_compound scope base filters candidates member) (.simple test)

theorem compound_split_negation (items : List Negatable) :
    scope.compound base (filters ++ [.notAny items]) candidates =
      scope.compound base (filters ++ items.map .notOne) candidates := by
  rw [compound_append_one, compound_append, passing_eq]
  apply List.filter_congr
  intro id member
  exact not_any_accepts (element_of_compound scope base filters candidates member) items

end

/-! Main result. -/

/-- The filters of a compound count together, whatever the candidates, also where they are tried one
by one with their warnings and only until nothing is left. Other filters with the same members, as
they come of reordering and repeating, keep the same list; so do the negations of the single items
in place of the negation of all of them. With one more filter, and with its negation, the lists
have nothing in common and merge to the list without either; where that filter is unsupported, its
negation keeps everything. -/
theorem filters_count_together (scope : Scope) (base : Option Base) (filters : List Simple)
    (candidates : List NodeId) :
    (∀ journal, ((scope.compoundAloud base filters candidates).run journal).1 =
      scope.compound base filters candidates) ∧
    (∀ other : List Simple, (∀ filter, filter ∈ other ↔ filter ∈ filters) →
      scope.compound base other candidates = scope.compound base filters candidates) ∧
    (∀ (items : List Negatable) (after : List Simple),
      scope.compound base (filters ++ .notAny items :: after) candidates =
        scope.compound base (filters ++ items.map .notOne ++ after) candidates) ∧
    ∀ test : Simple,
      (scope.compound base (filters ++ [test]) candidates).Disjoint
          (scope.compound base (filters ++ [.notOne (.simple test)]) candidates) ∧
        Merges (scope.compound base (filters ++ [test]) candidates)
          (scope.compound base (filters ++ [.notOne (.simple test)]) candidates)
          (scope.compound base filters candidates) ∧
        (test.isUnsupported = true →
          scope.compound base (filters ++ [.notOne (.simple test)]) candidates =
            scope.compound base filters candidates) := by
  constructor
  · intro journal
    rw [gives_compound scope base filters candidates journal]
  constructor
  · exact fun other same => passing_of_same_filters scope _ same _
  constructor
  · intro items after
    rw [List.append_cons, compound_append, compound_split_negation, ← compound_append]
  · intro test
    rw [compound_append_one, compound_append_negation]
    constructor
    · exact parts_disjoint _ _
    constructor
    · exact merges_parts _ _
    · intro unsupported
      apply List.filter_eq_self.mpr
      intro id _
      rw [unsupported_not_accepted unsupported, Bool.not_false]

/-- `:first-child:not(ul, :hover)` on the items of the short list, which are given backwards and
with one of them twice. -/
def firstNotHovered : List Simple :=
  [.pseudo "first-child" .pseudoClass,
    .notAny [.type "ul", .simple (.pseudo "hover" .pseudoClass)]]

theorem first_item_kept :
    (∀ filter, filter ∈ firstNotHovered.reverse ++ firstNotHovered ↔ filter ∈ firstNotHovered) ∧
      (Simple.pseudo "hover" .pseudoClass).isUnsupported = true ∧
      (Scope.of shortList 0).compound (some (.type "li"))
        (firstNotHovered.reverse ++ firstNotHovered) [4, 3, 2, 2, 1] = [2, 2] ∧
      (Scope.of shortList 0).compound (some (.type "li"))
        (firstNotHovered ++ [.notOne (.simple (.pseudo "hover" .pseudoClass))])
        [4, 3, 2, 2, 1] = [2, 2] := by
  have same : ∀ filter,
      filter ∈ firstNotHovered.reverse ++ firstNotHovered ↔ filter ∈ firstNotHovered := by
    intro filter
    rw [List.mem_append, List.mem_reverse, or_self]
  have unsupported : (Simple.pseudo "hover" .pseudoClass).isUnsupported = true := by
    decide +kernel
  have kept : (Scope.of shortList 0).compound (some (.type "li")) firstNotHovered
      [4, 3, 2, 2, 1] = [2, 2] := by decide +kernel
  obtain ⟨-, reordered, -, parted⟩ := filters_count_together (Scope.of shortList 0)
    (some (.type "li")) firstNotHovered [4, 3, 2, 2, 1]
  constructor
  · exact same
  constructor
  · exact unsupported
  constructor
  · exact (reordered _ same).trans kept
  · exact ((parted _).2.2 unsupported).trans kept

end TreeSelect
