import Mathlib.Data.List.Infix
import TreeSelect.Matching.Attribute

/-!
What attributes are compared with. However an operator compares, the query stands in the value
letter by letter, so that of two texts of one length each is found in itself alone.
-/

namespace TreeSelect

namespace Text

theorem occurs_in_iff (part text : List Char) : occursIn part text = true ↔ part <:+: text := by
  induction text with
  | nil => rw [occursIn, List.isEmpty_iff, List.infix_nil]
  | cons c rest ih =>
      rw [occursIn, Bool.or_eq_true, List.isPrefixOf_iff_prefix, ih, List.infix_cons_iff]

/-! Words. -/

/-- The first piece starts the text, and all of them stand in it. -/
theorem exists_pieces (text : List Char) :
    ∃ first others, pieces text = first :: others ∧ first <+: text ∧
      ∀ piece ∈ others, piece <:+: text := by
  induction text with
  | nil => exact ⟨[], [], rfl, List.prefix_rfl, List.forall_mem_nil _⟩
  | cons c rest ih =>
      obtain ⟨first, others, split, starts, inside⟩ := ih
      by_cases blank : isAsciiBlank c = true
      · refine ⟨[], first :: others, by rw [pieces, if_pos blank, split], List.nil_prefix, ?_⟩
        intro piece member
        rcases List.mem_cons.mp member with rfl | later
        · exact List.infix_cons starts.isInfix
        · exact List.infix_cons (inside piece later)
      · refine ⟨c :: first, others, ?_, (List.prefix_cons_inj c).mpr starts, ?_⟩
        · rw [pieces, if_neg blank, split]
        · exact fun piece member => List.infix_cons (inside piece member)

theorem infix_of_word {word value : String} (member : word ∈ words value) :
    word.toList <:+: value.toList := by
  obtain ⟨first, others, split, starts, inside⟩ := exists_pieces value.toList
  obtain ⟨piece, kept, rfl⟩ := List.mem_map.mp member
  have isPiece := (List.mem_filter.mp kept).1
  rw [split] at isPiece
  rw [String.toList_ofList]
  rcases List.mem_cons.mp isPiece with rfl | later
  · exact starts.isInfix
  · exact inside piece later

theorem pieces_whole (text : List Char) :
    ∀ piece ∈ pieces text, ∀ c ∈ piece, isAsciiBlank c = false := by
  induction text with
  | nil => simp [pieces]
  | cons c rest ih =>
      obtain ⟨first, others, split, -, -⟩ := exists_pieces rest
      rw [split, List.forall_mem_cons] at ih
      by_cases blank : isAsciiBlank c = true
      · rw [pieces, if_pos blank, split, List.forall_mem_cons, List.forall_mem_cons]
        exact ⟨List.forall_mem_nil _, ih⟩
      · rw [pieces, if_neg blank, split, List.forall_mem_cons, List.forall_mem_cons]
        exact ⟨⟨Bool.eq_false_iff.mpr blank, ih.1⟩, ih.2⟩

theorem whole_of_word {word value : String} (member : word ∈ words value) :
    word ≠ "" ∧ ∀ c ∈ word.toList, isAsciiBlank c = false := by
  obtain ⟨piece, kept, rfl⟩ := List.mem_map.mp member
  obtain ⟨isPiece, filled⟩ := List.mem_filter.mp kept
  rw [String.toList_ofList]
  refine ⟨?_, pieces_whole _ piece isPiece⟩
  rintro empty
  have none : piece = [] := by simpa using congrArg String.toList empty
  simp [none] at filled

theorem pieces_of_word {word : List Char} (whole : ∀ c ∈ word, isAsciiBlank c = false) :
    pieces word = [word] := by
  induction word with
  | nil => rfl
  | cons c rest ih =>
      obtain ⟨here, later⟩ := List.forall_mem_cons.mp whole
      simp [pieces, here, ih later]

theorem words_of_word {word : String} (filled : word ≠ "")
    (whole : ∀ c ∈ word.toList, isAsciiBlank c = false) : words word = [word] := by
  have letters : word.toList ≠ [] := fun none => filled (String.toList_inj.mp none)
  simp [words, pieces_of_word whole, letters]

end Text

/-! Operators. -/

namespace AttributeOperator

theorem infix_of_accepts {operator : AttributeOperator} {value query : String}
    (compares : operator ≠ .present) (accepted : operator.accepts value query = true) :
    query.toList <:+: value.toList := by
  cases operator with
  | present => exact absurd rfl compares
  | equals => rw [beq_iff_eq.mp accepted]
  | includes => exact Text.infix_of_word (List.contains_iff_mem.mp accepted)
  | dashMatch =>
      rcases Bool.or_eq_true_iff.mp accepted with same | marked
      · rw [beq_iff_eq.mp same]
      · have starts := List.isPrefixOf_iff_prefix.mp marked
        exact ((List.prefix_append _ _).trans starts).isInfix
  | prefixMatch =>
      have starts := (Bool.and_eq_true_iff.mp accepted).2
      exact (List.isPrefixOf_iff_prefix.mp starts).isInfix
  | suffixMatch =>
      have ends := (Bool.and_eq_true_iff.mp accepted).2
      exact (List.isSuffixOf_iff_suffix.mp ends).isInfix
  | substringMatch =>
      have inside := (Bool.and_eq_true_iff.mp accepted).2
      exact (Text.occurs_in_iff _ _).mp inside

/-- A text that is not empty, and where words are looked for a word, is found in itself. -/
theorem accepts_self {operator : AttributeOperator} {value : String} (filled : value ≠ "")
    (whole : operator = .includes → ∀ c ∈ value.toList, Text.isAsciiBlank c = false) :
    operator.accepts value value = true := by
  have given : (value != "") = true := bne_iff_ne.mpr filled
  cases operator with
  | present => rfl
  | equals => exact beq_self_eq_true value
  | includes =>
      rw [accepts, Text.words_of_word filled (whole rfl)]
      simp
  | dashMatch => simp [accepts]
  | prefixMatch => simp [accepts, given]
  | suffixMatch => simp [accepts, given, List.isSuffixOf_iff_suffix]
  | substringMatch => simp [accepts, given, Text.occurs_in_iff]

end AttributeOperator

end TreeSelect
