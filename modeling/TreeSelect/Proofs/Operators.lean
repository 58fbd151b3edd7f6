import TreeSelect.Proofs.Conjunction
import TreeSelect.Proofs.Values

/-!
How the attribute operators are nested. A value that is equal to the query also starts and ends
with it, one that starts with the query and a dash also starts with the query, and wherever a
value is compared and accepted the query stands in it. An element counts with every attribute of
the name, so what holds of single values holds of elements.

Classes and ids are looked up in the element itself and not by an attribute test. They are the same
as the words of `class` and the values of `id`.
-/

namespace TreeSelect

namespace AttributeOperator

/-- `[name op query]`. -/
def test (operator : AttributeOperator) (name query : String) : AttributeTest :=
  ⟨name, operator, some query⟩

variable {value query : String}

theorem accepts_of_equals {operator : AttributeOperator} (filled : query ≠ "")
    (noWord : operator ≠ .includes) (accepted : equals.accepts value query = true) :
    operator.accepts value query = true := by
  have same : value = query := beq_iff_eq.mp accepted
  rw [same]
  exact accepts_self filled fun word => absurd word noWord

theorem prefix_of_dash (filled : query ≠ "") (accepted : dashMatch.accepts value query = true) :
    prefixMatch.accepts value query = true := by
  rcases Bool.or_eq_true_iff.mp accepted with same | marked
  · exact accepts_of_equals filled (by decide) same
  · have starts : query.toList <+: value.toList :=
      (List.prefix_append _ _).trans (List.isPrefixOf_iff_prefix.mp marked)
    exact Bool.and_eq_true_iff.mpr
      ⟨bne_iff_ne.mpr filled, List.isPrefixOf_iff_prefix.mpr starts⟩

theorem substring_of_accepts {operator : AttributeOperator} (filled : query ≠ "")
    (compares : operator ≠ .present) (accepted : operator.accepts value query = true) :
    substringMatch.accepts value query = true :=
  Bool.and_eq_true_iff.mpr
    ⟨bne_iff_ne.mpr filled, (Text.occurs_in_iff _ _).mpr (infix_of_accepts compares accepted)⟩

end AttributeOperator

namespace AttributeTest

theorem accepts_iff (test : AttributeTest) (element : Element) :
    test.accepts element = true ↔
      test.name ≠ "" ∧ ∃ entry ∈ element.named test.name, test.acceptsValue entry.value = true := by
  rw [accepts, Bool.and_eq_true, bne_iff_ne, List.any_eq_true]

/-- The elements of the one test are among those of the other. -/
def Within (test wider : AttributeTest) : Prop :=
  ∀ element : Element, test.accepts element = true → wider.accepts element = true

theorem within_of_values {test wider : AttributeTest} (sameName : test.name = wider.name)
    (values : ∀ value, test.acceptsValue value = true → wider.acceptsValue value = true) :
    test.Within wider := by
  intro element accepted
  obtain ⟨named, entry, listed, holds⟩ := (test.accepts_iff element).mp accepted
  rw [sameName] at named listed
  exact (wider.accepts_iff element).mpr ⟨named, entry, listed, values entry.value holds⟩

theorem within_present (test : AttributeTest) : test.Within ⟨test.name, .present, none⟩ :=
  within_of_values rfl fun _ _ => rfl

/-- A word that no value has is one that is empty or falls apart. -/
theorem includes_nothing_iff {name : String} (named : name ≠ "") (query : String) :
    (∀ element, (AttributeOperator.includes.test name query).accepts element = false) ↔
      query = "" ∨ ∃ c ∈ query.toList, Text.isAsciiBlank c = true := by
  constructor
  · intro nothing
    by_contra word
    rw [not_or, not_exists] at word
    have whole : ∀ c ∈ query.toList, Text.isAsciiBlank c = false :=
      fun c member => Bool.eq_false_iff.mpr fun blank => word.2 c ⟨member, blank⟩
    -- The query itself is a value that would be found.
    have found : (AttributeOperator.includes.test name query).accepts ⟨"a", [⟨name, query⟩]⟩ =
        true := by
      refine (accepts_iff _ _).mpr ⟨named, ⟨name, query⟩, ?_, ?_⟩
      · exact List.mem_filter.mpr ⟨List.mem_singleton_self _, Text.same_name_refl name⟩
      · exact @AttributeOperator.accepts_self .includes query word.1 fun _ => whole
    rw [nothing] at found
    cases found
  · intro noWord element
    rw [Bool.eq_false_iff]
    intro accepted
    obtain ⟨-, entry, -, holds⟩ := (accepts_iff _ _).mp accepted
    have word := Text.whole_of_word (List.contains_iff_mem.mp holds)
    rcases noWord with empty | ⟨c, member, blank⟩
    · exact word.1 empty
    · rw [word.2 c member] at blank
      cases blank

end AttributeTest

/-! Classes and ids. -/

theorem class_accepts (query : String) (element : Element) :
    (AttributeOperator.includes.test "class" query).accepts element =
      element.classes.contains query := by
  rw [Bool.eq_iff_iff, AttributeTest.accepts_iff, List.contains_iff_mem, Element.classes,
    List.mem_flatMap]
  constructor
  · rintro ⟨-, entry, listed, holds⟩
    exact ⟨entry, listed, List.contains_iff_mem.mp holds⟩
  · rintro ⟨entry, listed, word⟩
    exact ⟨show "class" ≠ "" by decide, entry, listed, List.contains_iff_mem.mpr word⟩

/-- One passes wherever the other does, also inside a negation. -/
def Simple.Alike (test other : Simple) : Prop :=
  ∀ scope hint id, test.accepts scope hint id = other.accepts scope hint id

theorem cls_alike (query : String) :
    (Simple.cls query).Alike (.attribute (AttributeOperator.includes.test "class" query)) := by
  intro scope hint id
  simp only [Simple.accepts, ← class_accepts]

theorem hash_alike (query : String) :
    (Simple.hash query).Alike (.attribute (AttributeOperator.equals.test "id" query)) :=
  fun _ _ _ => rfl

theorem Simple.Alike.compound {test other : Simple} (alike : test.Alike other) (scope : Scope)
    (base : Option Base) (before after : List Simple) (candidates : List NodeId) :
    scope.compound base (before ++ test :: after) candidates =
      scope.compound base (before ++ other :: after) candidates := by
  rw [Scope.compound, Scope.compound, passing_eq, passing_eq]
  apply List.filter_congr
  intro id _
  rw [List.all_append, List.all_append, List.all_cons, List.all_cons, alike]

/-! Main result. -/

/-- Which elements one test finds among those of another, with one name and one query. A test of any
operator finds only elements that have the attribute. Equal values start, end and dash-match with a
query that is not empty; what dash-matches starts with it; and it stands in all that starts or ends
with it or has it as a word. Words are found exactly for queries that can be words. A class is found
where it is a word of `class`, and an id where it is the value of `id`, as part of any compound. -/
theorem operators_nested {name : String} (named : name ≠ "") (query : String) :
    (∀ operator value, AttributeTest.Within ⟨name, operator, value⟩ ⟨name, .present, none⟩) ∧
    (query ≠ "" →
      (AttributeOperator.equals.test name query).Within
          (AttributeOperator.prefixMatch.test name query) ∧
        (AttributeOperator.equals.test name query).Within
          (AttributeOperator.suffixMatch.test name query) ∧
        (AttributeOperator.equals.test name query).Within
          (AttributeOperator.dashMatch.test name query) ∧
        (AttributeOperator.dashMatch.test name query).Within
          (AttributeOperator.prefixMatch.test name query) ∧
        (AttributeOperator.prefixMatch.test name query).Within
          (AttributeOperator.substringMatch.test name query) ∧
        (AttributeOperator.suffixMatch.test name query).Within
          (AttributeOperator.substringMatch.test name query) ∧
        (AttributeOperator.includes.test name query).Within
          (AttributeOperator.substringMatch.test name query)) ∧
    ((∀ element, (AttributeOperator.includes.test name query).accepts element = false) ↔
      query = "" ∨ ∃ c ∈ query.toList, Text.isAsciiBlank c = true) ∧
    (Simple.cls query).Alike (.attribute (AttributeOperator.includes.test "class" query)) ∧
    (Simple.hash query).Alike (.attribute (AttributeOperator.equals.test "id" query)) ∧
    ∀ (tree : Tree) (root : NodeId) (base : Option Base) (before after : List Simple),
      evaluate (.compound base (before ++ .cls query :: after)) tree root =
          evaluate (.compound base (before ++
            .attribute (AttributeOperator.includes.test "class" query) :: after)) tree root ∧
        evaluate (.compound base (before ++ .hash query :: after)) tree root =
          evaluate (.compound base (before ++
            .attribute (AttributeOperator.equals.test "id" query) :: after)) tree root := by
  refine ⟨fun operator value => AttributeTest.within_present ⟨name, operator, value⟩, ?_,
    AttributeTest.includes_nothing_iff named query, cls_alike query, hash_alike query, ?_⟩
  · intro filled
    have equals {operator : AttributeOperator} (noWord : operator ≠ .includes) :
        (AttributeOperator.equals.test name query).Within (operator.test name query) :=
      AttributeTest.within_of_values rfl fun _ =>
        AttributeOperator.accepts_of_equals filled noWord
    have substring {operator : AttributeOperator} (compares : operator ≠ .present) :
        (operator.test name query).Within (AttributeOperator.substringMatch.test name query) :=
      AttributeTest.within_of_values rfl fun _ =>
        AttributeOperator.substring_of_accepts filled compares
    have dash : (AttributeOperator.dashMatch.test name query).Within
        (AttributeOperator.prefixMatch.test name query) :=
      AttributeTest.within_of_values rfl fun _ => AttributeOperator.prefix_of_dash filled
    exact ⟨equals nofun, equals nofun, equals nofun, dash, substring nofun, substring nofun,
      substring nofun⟩
  · intro tree root base before after
    exact ⟨(cls_alike query).compound _ base before after _,
      (hash_alike query).compound _ base before after _⟩

/-- A paragraph with two languages, the second of them British English. -/
def britishParagraph : Element := ⟨"p", [⟨"LANG", "fr"⟩, ⟨"lang", "en-GB"⟩]⟩

theorem british_found_by_dash_and_prefix :
    "Lang" ≠ "" ∧ "en" ≠ "" ∧
      (AttributeOperator.dashMatch.test "Lang" "en").accepts britishParagraph = true ∧
      (AttributeOperator.prefixMatch.test "Lang" "en").accepts britishParagraph = true ∧
      (AttributeOperator.substringMatch.test "Lang" "en").accepts britishParagraph = true ∧
      AttributeTest.accepts ⟨"Lang", .present, none⟩ britishParagraph = true ∧
      ∀ element, (AttributeOperator.includes.test "Lang" "en GB").accepts element = false := by
  have named : "Lang" ≠ "" := by decide
  have filled : "en" ≠ "" := by decide
  have listed : (⟨"lang", "en-GB"⟩ : Attribute) ∈ britishParagraph.named "Lang" :=
    List.mem_filter.mpr
      ⟨List.mem_cons_of_mem _ List.mem_cons_self, (Text.same_name_iff _ _).mpr (by decide +kernel)⟩
  have dash : (AttributeOperator.dashMatch.test "Lang" "en").accepts britishParagraph = true :=
    (AttributeTest.accepts_iff _ _).mpr ⟨named, _, listed, by decide +kernel⟩
  obtain ⟨present, nested, -⟩ := operators_nested named "en"
  obtain ⟨-, -, -, starts, stands, -⟩ := nested filled
  obtain ⟨-, -, words, -⟩ := operators_nested named "en GB"
  have blank : ∃ c ∈ "en GB".toList, Text.isAsciiBlank c = true := ⟨' ', by decide, rfl⟩
  have found := starts britishParagraph dash
  exact ⟨named, filled, dash, found, stands britishParagraph found,
    present .dashMatch (some "en") britishParagraph dash, words.mpr (.inr blank)⟩

end TreeSelect
