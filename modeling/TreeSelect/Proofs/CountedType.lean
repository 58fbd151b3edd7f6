import TreeSelect.Proofs.Judgement
import TreeSelect.Proofs.Siblings
import TreeSelect.Proofs.Warnings

/-!
The type that is counted. A compound that names a type lends that name to its filters, to the ones
inside of negations too, and the classes that count elements of one type go by it; without it they
go by the tag of the element itself. An element of the named type has the name for its tag but for
letter case, and names that differ in letter case only make one population. So it does not matter
which of the two is lent: the same elements pass, and the same warnings are given.

Nothing is asked of the links of the tree.
-/

namespace TreeSelect

/-! One population under both names. -/

theorem sibling_index_of_counts {tree : Tree} {population other : Population}
    (counts : population.counts tree = other.counts tree)
    (ends : population.fromEnd = other.fromEnd) (id : NodeId) :
    siblingIndex? tree id population = siblingIndex? tree id other := by
  simp only [siblingIndex?, Population.members, counts, ends]

section
variable {tag name : String} (same : Text.sameName tag name = true)
include same

theorem CountingClass.index_same_type (counting : CountingClass) (tree : Tree) (id : NodeId) :
    siblingIndex? tree id (counting.population tag) =
      siblingIndex? tree id (counting.population name) := by
  have counts : (counting.population tag).counts tree = (counting.population name).counts tree := by
    cases counting with
    | nthChild => rfl
    | nthLastChild => rfl
    | nthOfType => exact Population.of_tag_counts same tree
    | nthLastOfType => exact Population.of_tag_counts same tree
  have ends : (counting.population tag).fromEnd = (counting.population name).fromEnd := by
    cases counting <;> rfl
  exact sibling_index_of_counts counts ends id

theorem Scope.in_class_same_type (scope : Scope) (id : NodeId) (pseudoClass : PseudoClass) :
    scope.inClass id tag pseudoClass = scope.inClass id name pseudoClass := by
  have first : isFirst scope.tree id (.ofTag tag) = isFirst scope.tree id (.ofTag name) :=
    congrArg (· == some 1) (CountingClass.nthOfType.index_same_type same scope.tree id)
  have last : isFirst scope.tree id (Population.ofTag tag).reversed =
      isFirst scope.tree id (Population.ofTag name).reversed :=
    congrArg (· == some 1) (CountingClass.nthLastOfType.index_same_type same scope.tree id)
  cases pseudoClass with
  | firstOfType => exact first
  | lastOfType => exact last
  | onlyOfType => exact congrArg₂ and first last
  | _ => rfl

end

/-! Tests of one element. -/

namespace Scope

variable {scope : Scope} {hint other : Option String} {id : NodeId}

/-- Under either hint one type is counted, in whatever letter case the hints have it. -/
theorem judges_of_same_type {tag name : String} (here : scope.countedTag? hint id = some tag)
    (there : scope.countedTag? other id = some name) (same : Text.sameName tag name = true) :
    scope.JudgesAlike scope hint other id id where
  data := rfl
  inClass known := by
    rw [inPseudoClass, inPseudoClass, here, there]
    cases PseudoClass.ofName? known with
    | none => rfl
    | some pseudoClass => exact scope.in_class_same_type same id pseudoClass
  inFunction known argument := by
    rw [inFunction, inFunction, here, there]
    cases CountingClass.ofName? known with
    | none => rfl
    | some counting =>
        cases argument.formula with
        | none => rfl
        | some formula =>
            dsimp only
            rw [counting.index_same_type same]

theorem JudgesAlike.accepts_aloud (alike : scope.JudgesAlike scope hint other id id)
    (element : scope.tree.isElement id = true) (test : Simple) :
    test.acceptsAloud scope hint id = test.acceptsAloud scope other id := by
  funext journal
  have here := @gives_accepts scope hint id element test journal
  have there := @gives_accepts scope other id element test journal
  rw [alike.accepts test, alike.warnings test] at here
  exact here.trans there.symm

end Scope

/-! Narrowing, where every element may have a hint of its own. -/

theorem narrowed_congr {tests other : Simple → NodeId → Bool} (filters : List Simple)
    {candidates : List NodeId}
    (same : ∀ id ∈ candidates, ∀ filter, tests filter id = other filter id) :
    filters.foldl (fun working filter => working.filter (tests filter)) candidates =
      filters.foldl (fun working filter => working.filter (other filter)) candidates := by
  induction filters generalizing candidates with
  | nil => rfl
  | cons first rest ih =>
      have here : candidates.filter (tests first) = candidates.filter (other first) :=
        List.filter_congr fun id member => same id member first
      rw [List.foldl_cons, List.foldl_cons, here]
      exact ih fun id member => same id (List.mem_of_mem_filter member)

/-- Filters for which each element is counted with its own tag. -/
def Scope.passingByOwnTag (scope : Scope) (filters : List Simple) (candidates : List NodeId) :
    List NodeId :=
  filters.foldl (fun working filter =>
    working.filter fun id => filter.accepts scope (scope.tree.tag? id) id) candidates

/-! Main result. -/

/-- To lend a filter the type that an element has, in any letter case, changes nothing in what the
filter says of the element, nor in what it warns about and when. So a compound that names a type
keeps what its filters keep without the name, and what they keep if each element is counted with
its own tag. -/
theorem named_type_redundant (scope : Scope) :
    (∀ id tag name (filter : Simple), scope.tree.tag? id = some tag →
      Text.sameName tag name = true →
        filter.accepts scope (some name) id = filter.accepts scope none id ∧
        filter.acceptsAloud scope (some name) id = filter.acceptsAloud scope none id) ∧
    ∀ name filters candidates,
      let named := candidates.filter (scope.hasType · name)
      scope.compound (some (.type name)) filters candidates = scope.passing none filters named ∧
      scope.compound (some (.type name)) filters candidates =
        scope.passingByOwnTag filters named := by
  have alike {id : NodeId} {tag name : String} {other : Option String}
      (same : Text.sameName tag name = true) (lent : scope.countedTag? other id = some tag) :
      scope.JudgesAlike scope (some name) other id id :=
    Scope.judges_of_same_type rfl lent ((Text.same_name_symm name tag).trans same)
  refine ⟨?_, ?_⟩
  · intro id tag name filter own same
    have element : scope.tree.isElement id = true := by
      rw [Tree.tag?, Option.map_eq_some_iff] at own
      obtain ⟨data, found, -⟩ := own
      rw [Tree.isElement, found, Option.isSome_some]
    have counted : scope.JudgesAlike scope (some name) none id id := alike same own
    exact ⟨counted.accepts filter, counted.accepts_aloud element filter⟩
  · intro name filters candidates named
    have typed : ∀ id ∈ named, ∃ tag, scope.tree.tag? id = some tag ∧
        Text.sameName tag name = true := fun id member =>
      (Option.any_eq_true _ _).mp (List.mem_filter.mp member).2
    refine ⟨narrowed_congr filters fun id member filter => ?_,
      narrowed_congr filters fun id member filter => ?_⟩
    · obtain ⟨tag, own, same⟩ := typed id member
      have counted : scope.JudgesAlike scope (some name) none id id := alike same own
      exact counted.accepts filter
    · obtain ⟨tag, own, same⟩ := typed id member
      have lent : scope.countedTag? (scope.tree.tag? id) id = some tag := by
        rw [Scope.countedTag?, own]
        rfl
      exact (alike same lent).accepts filter

/-- `:not(:first-of-type, span, :nth-last-of-type(2))` -/
def neitherEnd : Simple :=
  .notAny [.simple (.pseudo "first-of-type" .pseudoClass), .type "span",
    .simple (.functional "nth-last-of-type" (.integer 2))]

/-- The second item, counted among `LI` as it is among `li`. -/
theorem second_item_among_its_type :
    (shortList.tag? 4 = some "li" ∧ Text.sameName "li" "LI" = true) ∧
      neitherEnd.accepts (Scope.of shortList 0) (some "LI") 4 =
        neitherEnd.accepts (Scope.of shortList 0) none 4 ∧
      (Scope.of shortList 0).compound (some (.type "LI")) [neitherEnd] [2, 4] = [4] := by
  obtain ⟨one, whole⟩ := named_type_redundant (Scope.of shortList 0)
  have first : (Scope.of shortList 0).tree.tag? 2 = some "li" := rfl
  have second : (Scope.of shortList 0).tree.tag? 4 = some "li" := rfl
  have same : Text.sameName "li" "LI" = true := by
    rw [Text.same_name_iff, ← String.toList_inj]
    decide +kernel
  have typed {id : NodeId} (own : (Scope.of shortList 0).tree.tag? id = some "li") :
      (Scope.of shortList 0).hasType id "LI" = true :=
    (Option.any_eq_true _ _).mpr ⟨"li", own, same⟩
  have named : [2, 4].filter ((Scope.of shortList 0).hasType · "LI") = [2, 4] :=
    List.filter_eq_self.mpr
      (List.forall_mem_cons.mpr ⟨typed first, List.forall_mem_singleton.mpr (typed second)⟩)
  refine ⟨⟨second, same⟩, (one 4 "li" "LI" neitherEnd second same).1, ?_⟩
  rw [(whole "LI" [neitherEnd] [2, 4]).2, named]
  decide +kernel

end TreeSelect
