import Mathlib.Algebra.Ring.Int.Defs
import Mathlib.Algebra.Ring.Nat
import TreeSelect.Matching.Position
import TreeSelect.Proofs.Arguments

/-!
Which positions a formula admits. The test divides toward zero and looks at the sign of the
quotient; that is right for steps and offsets of either sign, and a step of zero admits the offset
alone.

On words of 64 bits an operation has no result where it leaves their range, and division has none
by zero. The offset is as large as a word only where the step is zero, and there the test does not
calculate at all; so on the formulas that arguments stand for the test goes through, and gives the
same answer as on whole numbers.
-/

namespace TreeSelect

namespace Formula

theorem admits_iff (formula : Formula) (index : Int) :
    formula.admits index = true ↔ ∃ n : Nat, index = formula.step * n + formula.offset := by
  by_cases zero : formula.step = 0
  · simp [admits, zero]
  simp only [admits, zero, if_false, Bool.and_eq_true, beq_iff_eq, decide_eq_true_eq,
    ← Int.dvd_iff_tmod_eq_zero]
  constructor
  · rintro ⟨⟨quotient, same⟩, positive⟩
    rw [same, Int.mul_tdiv_cancel_left quotient zero] at positive
    refine ⟨quotient.toNat, ?_⟩
    rw [Int.toNat_of_nonneg positive, ← same, Int.sub_add_cancel]
  · rintro ⟨n, rfl⟩
    rw [Int.add_sub_cancel, Int.mul_tdiv_cancel_left _ zero]
    exact ⟨Int.dvd_mul_right _ _, Int.natCast_nonneg n⟩

end Formula

/-! The test on words. -/

namespace Word

def difference? (left right : Int64) : Option Int64 :=
  if left.toBitVec.ssubOverflow right.toBitVec then none else some (left - right)

/-- The smallest word divided by -1 would be larger than all words. -/
def Divides (divisor word : Int64) : Prop :=
  divisor ≠ 0 ∧ ¬ (word = Int64.minValue ∧ divisor = -1)

instance (divisor word : Int64) : Decidable (Divides divisor word) :=
  inferInstanceAs (Decidable (divisor ≠ 0 ∧ ¬ (word = Int64.minValue ∧ divisor = -1)))

def remainder? (word divisor : Int64) : Option Int64 :=
  if Divides divisor word then some (word % divisor) else none

def quotient? (word divisor : Int64) : Option Int64 :=
  if Divides divisor word then some (word / divisor) else none

/-- The test of a formula, one operation after the other. -/
def admits? (step offset index : Int64) : Option Bool :=
  if step = 0 then some (index == offset)
  else do
    let distance ← difference? index offset
    let rest ← remainder? distance step
    if rest = 0 then
      let quotient ← quotient? distance step
      return decide (0 ≤ quotient)
    else return false

/-- The two are closer than the words are wide. -/
def Near (index offset : Int64) : Prop := (index.toInt - offset.toInt).natAbs < 2 ^ 63

theorem difference_near {index offset : Int64} (near : Near index offset) :
    ∃ distance, difference? index offset = some distance ∧
      distance.toInt = index.toInt - offset.toInt ∧ distance ≠ Int64.minValue := by
  rw [Near] at near
  have fits : ¬ index.toBitVec.ssubOverflow offset.toBitVec = true := by
    have low : ¬ index.toInt - offset.toInt < -2 ^ 63 := by omega
    have high : ¬ index.toInt - offset.toInt ≥ 2 ^ 63 := by omega
    rw [BitVec.ssubOverflow, Bool.or_eq_true, decide_eq_true_eq, decide_eq_true_eq]
    exact not_or.mpr ⟨high, low⟩
  have exact : (index - offset).toInt = index.toInt - offset.toInt :=
    BitVec.toInt_sub_of_not_ssubOverflow fits
  refine ⟨index - offset, if_neg fits, exact, ?_⟩
  intro least
  rw [least] at exact
  have value : Int64.minValue.toInt = -2 ^ 63 := rfl
  omega

theorem to_int_zero_iff (word : Int64) : word.toInt = 0 ↔ word = 0 :=
  Int64.toInt_inj (y := 0)

theorem admits_near {step offset index : Int64} (near : step = 0 ∨ Near index offset) :
    admits? step offset index =
      some (Formula.admits ⟨step.toInt, offset.toInt⟩ index.toInt) := by
  by_cases zero : step = 0
  · have same : (index == offset) = (index.toInt == offset.toInt) := by
      rw [Bool.eq_iff_iff, beq_iff_eq, beq_iff_eq, Int64.toInt_inj]
    rw [admits?, if_pos zero, Formula.admits, if_pos ((to_int_zero_iff step).mpr zero), same]
  · obtain ⟨distance, found, exact, notLeast⟩ := difference_near (near.resolve_left zero)
    -- Only the smallest word by -1 has no quotient, and the distance is not that small.
    have divides : Divides step distance := ⟨zero, fun least => notLeast least.1⟩
    have rest : distance % step = 0 ↔ distance.toInt.tmod step.toInt = 0 := by
      rw [← to_int_zero_iff, Int64.toInt_mod]
    have sign : 0 ≤ distance / step ↔ 0 ≤ distance.toInt.tdiv step.toInt := by
      rw [Int64.le_iff_toInt_le, Int64.toInt_div_of_ne_left distance step notLeast]
      rfl
    rw [admits?, if_neg zero, found, Formula.admits, if_neg (zero ∘ (to_int_zero_iff step).mp)]
    simp only [Option.bind_eq_bind, Option.bind_some, remainder?, quotient?, if_pos divides, rest,
      sign, ← exact]
    split
    · next multiple => simp [multiple]
    · next other => simp [other]

end Word

/-! The formulas of arguments. -/

theorem Sign.word_of_apply (sign : Sign) (magnitude : UInt32) :
    ∃ word : Int64, word.toInt = sign.apply magnitude ∧ word.toInt.natAbs < UInt32.size := by
  have small : (sign.apply magnitude).natAbs < UInt32.size := by
    rw [nat_abs_apply]
    exact magnitude.toNat_lt
  have wide : UInt32.size < 2 ^ 63 := by decide
  have exact : (Int64.ofInt (sign.apply magnitude)).toInt = sign.apply magnitude :=
    Int64.toInt_ofInt_of_le (by omega) (by omega)
  exact ⟨.ofInt (sign.apply magnitude), exact, exact.symm ▸ small⟩

theorem Dimension.words_of_formula (d : Dimension) :
    ∃ step offset : Int64, step.toInt = d.formula.step ∧ offset.toInt = d.formula.offset ∧
      offset.toInt.natAbs < UInt32.size := by
  obtain ⟨step, stepExact, -⟩ := d.aSign.word_of_apply d.a
  obtain ⟨offset, offsetExact, small⟩ := d.bSign.word_of_apply d.b
  exact ⟨step, offset, stepExact, offsetExact, small⟩

/-- Every formula is a pair of words, and its offset is a small one unless the step is zero. -/
theorem Argument.words_of_formula {argument : Argument} {formula : Formula}
    (known : argument.formula = some formula)
    (whole : ∀ value, argument = .integer value → ∃ word : Int64, word.toInt = value) :
    ∃ step offset : Int64, step.toInt = formula.step ∧ offset.toInt = formula.offset ∧
      (step = 0 ∨ offset.toInt.natAbs < UInt32.size) := by
  cases argument with
  | dimension d =>
      cases known
      obtain ⟨step, offset, stepExact, offsetExact, small⟩ := d.words_of_formula
      exact ⟨step, offset, stepExact, offsetExact, .inr small⟩
  | keyword word =>
      cases known
      obtain ⟨step, offset, stepExact, offsetExact, small⟩ := word.dimension.words_of_formula
      exact ⟨step, offset, stepExact, offsetExact, .inr small⟩
  | integer value =>
      cases known
      obtain ⟨offset, exact⟩ := whole value rfl
      exact ⟨0, offset, rfl, exact, .inl rfl⟩
  | string value => cases known
  | ident name => cases known

/-! Main result. -/

/-- A formula admits exactly the indexes `step * n + offset` for some `n ≥ 0`. For every argument
whose whole number is a word, and every index up to 2^62, the test on words goes through without
leaving their range or dividing by zero, and says so. -/
theorem formula_decided_in_words {argument : Argument} {formula : Formula}
    (known : argument.formula = some formula)
    (whole : ∀ value, argument = .integer value → ∃ word : Int64, word.toInt = value)
    {index : Nat} (bounded : index ≤ 2 ^ 62) :
    (formula.admits index = true ↔
      ∃ n : Nat, (index : Int) = formula.step * n + formula.offset) ∧
    ∃ step offset place : Int64,
      step.toInt = formula.step ∧ offset.toInt = formula.offset ∧ place.toInt = index ∧
      Word.admits? step offset place = some (formula.admits index) := by
  refine ⟨formula.admits_iff index, ?_⟩
  obtain ⟨step, offset, stepExact, offsetExact, small⟩ := argument.words_of_formula known whole
  have place : (Int64.ofNat index).toInt = index :=
    Int64.toInt_ofNat_of_lt (by omega)
  have near : step = 0 ∨ Word.Near (.ofNat index) offset := by
    refine small.imp_right fun small => ?_
    have wide : UInt32.size < 2 ^ 62 := by decide
    rw [Word.Near, place]
    omega
  refine ⟨step, offset, .ofNat index, stepExact, offsetExact, place, ?_⟩
  rw [Word.admits_near near, stepExact, offsetExact, place]

/-- `4294967295n-3221225471` reaches the last position in 2^30 + 1 steps; the smallest integer
names no position. -/
theorem last_position_decided :
    Argument.formula (.dimension ⟨4294967295, .plus, 3221225471, .minus⟩) =
        some ⟨4294967295, -3221225471⟩ ∧
      (∃ n : Nat, ((2 ^ 62 : Nat) : Int) = 4294967295 * n + -3221225471) ∧
      (∃ step offset place : Int64, step.toInt = 4294967295 ∧ offset.toInt = -3221225471 ∧
        place.toInt = (2 ^ 62 : Nat) ∧ Word.admits? step offset place = some true) ∧
      (∃ word : Int64, word.toInt = -9223372036854775808) ∧
      ∃ step offset place : Int64, step.toInt = 0 ∧ offset.toInt = -9223372036854775808 ∧
        place.toInt = (2 ^ 62 : Nat) ∧ Word.admits? step offset place = some false := by
  have far := @formula_decided_in_words (.dimension ⟨4294967295, .plus, 3221225471, .minus⟩)
    ⟨4294967295, -3221225471⟩ rfl (fun _ => nofun) (2 ^ 62) (Nat.le_refl _)
  have least : ∃ word : Int64, word.toInt = -9223372036854775808 := ⟨.minValue, rfl⟩
  have before := @formula_decided_in_words (.integer (-9223372036854775808))
    ⟨0, -9223372036854775808⟩ rfl (fun _ same => Argument.integer.inj same ▸ least) (2 ^ 62)
    (Nat.le_refl _)
  have reached : ∃ n : Nat, ((2 ^ 62 : Nat) : Int) = 4294967295 * n + -3221225471 :=
    ⟨2 ^ 30 + 1, by decide⟩
  refine ⟨rfl, reached, ?_, least, before.2⟩
  obtain ⟨step, offset, place, exact⟩ := far.2
  rw [far.1.mpr reached] at exact
  exact ⟨step, offset, place, exact⟩

end TreeSelect
