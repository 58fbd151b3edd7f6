/-!
Whole numbers written in ASCII digits, below 2^32. Leading zeros are allowed; a run of
digits that means 2^32 or more is refused, never cut down.
-/

namespace TreeSelect.Text

def magnitude? (digits : List Char) : Option UInt32 :=
  if !digits.isEmpty && digits.all Char.isDigit
      && decide (Nat.ofDigitChars 10 digits 0 < UInt32.size) then
    some (UInt32.ofNat (Nat.ofDigitChars 10 digits 0))
  else none

theorem magnitude_eq_some_iff (digits : List Char) (value : UInt32) :
    magnitude? digits = some value ↔
      digits ≠ [] ∧ (∀ c ∈ digits, c.isDigit = true) ∧
        Nat.ofDigitChars 10 digits 0 = value.toNat := by
  unfold magnitude?
  split
  case isTrue fits =>
    simp only [Bool.and_eq_true, Bool.not_eq_true', List.isEmpty_eq_false_iff,
      List.all_eq_true, decide_eq_true_eq] at fits
    obtain ⟨⟨filled, digit⟩, small⟩ := fits
    rw [Option.some.injEq, ← UInt32.toNat_inj, UInt32.toNat_ofNat_of_lt' small]
    exact ⟨fun exact => ⟨filled, digit, exact⟩, fun both => both.2.2⟩
  case isFalse refused =>
    simp only [reduceCtorEq, false_iff, not_and]
    intro filled digit exact
    apply refused
    have small := value.toNat_lt
    simp [filled, List.all_eq_true.mpr digit, exact, UInt32.size]
    exact small

end TreeSelect.Text
