import TreeSelect.Proofs.Classification
import TreeSelect.Proofs.Formulas
import TreeSelect.Proofs.Siblings

/-!
The counting classes part the elements below a root. Every one of these has a position, from one
on, in every population of its own type; so of the formulas with one step and all offsets below
it exactly one admits the position, and so does one of two rays that leave each other.

The selectors are given as texts, with every number written in decimal.
-/

namespace TreeSelect

/-! Formulas that part the positions. -/

namespace Formula

end Formula

/-! The texts of formulas. -/

/-- In plain characters the text is written as this formula. -/
structure Formula.Plainly (raw : String) (formula : Formula) : Prop where
  plain : Argument.Plain raw.toList
  written : Formula.Written raw.toList formula

instance (text : List Char) : Decidable (Argument.Plain text) :=
  List.decidableBAll (fun c => isIdentChar c = true ∨ c = '+') text

theorem Numeral.plainly {numeral : Numeral} (small : numeral.InRange) {raw : String}
    (spelled : raw.toList = numeral.text) : numeral.formula.Plainly raw where
  plain := spelled ▸ Argument.plain_numeral numeral
  written := spelled ▸ .numeral numeral small

namespace Formula

theorem Plainly.classified {raw : String} {formula : Formula} (plainly : formula.Plainly raw) :
    Text.Enclosable raw ∧
      ∃ argument, Argument.classify raw = some argument ∧ argument.formula = some formula := by
  have whole : ¬ Text.Parts Text.isAlphanumeric raw.toList := by
    rw [← Argument.splits_term_iff, Argument.splitsTerm,
      Argument.splits_term_after_solid plainly.plain.solid]
    exact Bool.false_ne_true
  have same := Argument.filter_solid plainly.plain.solid
  obtain ⟨argument, classified, -, known⟩ := (Argument.formula_iff_written raw formula).mpr
    ⟨whole, same.symm ▸ plainly.written⟩
  exact ⟨enclosable_of_plain (same.symm ▸ plainly.plain), argument, classified, known⟩

end Formula

/-! The names of the counting classes. -/

section
variable {tree : Tree} {root : NodeId} {name : String} {counting : CountingClass}
  (named : CountingClass.ofName? name = some counting)
include named

end

/-! Main result. -/

end TreeSelect
