import TreeSelect.Proofs.Arguments

/-!
Canonical texts of arguments. What a text is classified as has a text of its own, which may be
another one: white space, leading zeros and signs of zeros are gone, and a coefficient of one and an
offset of zero are left out. That text is classified as the same argument, so putting arguments
in canonical form twice changes nothing more.

The magnitudes of `An+B` are words of 32 bits, and their signed values are words of 64 bits.
-/

namespace TreeSelect

/-- The signed value, calculated on words. -/
def Sign.word (sign : Sign) (magnitude : UInt32) : Int64 :=
  match sign with
  | .plus => Int64.ofNat magnitude.toNat
  | .minus => -Int64.ofNat magnitude.toNat

theorem Sign.to_int_word (sign : Sign) (magnitude : UInt32) :
    (sign.word magnitude).toInt = sign.apply magnitude := by
  have small : magnitude.toNat < UInt32.size := magnitude.toNat_lt
  have wide : UInt32.size < 2 ^ 63 := by decide
  cases sign with
  | plus => exact Int64.toInt_ofNat_of_lt (by omega)
  | minus => exact Int64.toInt_neg_ofNat_of_le (by omega)

namespace Dimension

theorem normal_is_normal (aSign bSign : Sign) (a b : UInt32) : (normal aSign a bSign b).Normal :=
  (normal_normal aSign bSign a b).symm

/-- No text of a dimension is an integer or a keyword, so it is read as `An+B`. -/
theorem read_text {d : Dimension} (normal : d.Normal) : read? d.text.toList = some d := by
  have numeric := Argument.numeric_dimension normal
  unfold Argument.numeric? at numeric
  split at numeric
  · cases numeric
  · split at numeric
    · cases numeric
    · obtain ⟨other, read, same⟩ := Option.map_eq_some_iff.mp numeric
      cases same
      exact read

end Dimension

namespace Argument

theorem unquoted_of_classify {raw : String} {argument : Argument}
    (found : classify raw = some argument) (value : String) : argument ≠ .string value := by
  rcases classify_cases found with numeric | ⟨name, rfl, -⟩
  · rcases numeric_cases numeric with ⟨_, rfl, -⟩ | ⟨_, rfl⟩ | ⟨_, rfl, -⟩ <;> exact nofun
  · exact nofun

/-! Main result. -/

/-- The text of an argument that was classified is classified as that argument. A dimension made of
any signs and magnitudes is read from its text, and its step and offset are the signed values, also
where they are calculated on words. -/
theorem canonical_text_classified_again :
    (∀ raw argument, classify raw = some argument →
      classify argument.text = some argument) ∧
    ∀ (aSign bSign : Sign) (a b : UInt32) (d : Dimension), d = .normal aSign a bSign b →
      Dimension.read? d.text.toList = some d ∧
        d.step = (if aSign = .minus then -(a.toNat : Int) else a.toNat) ∧
        d.offset = (if bSign = .minus then -(b.toNat : Int) else b.toNat) ∧
        (d.aSign.word d.a).toInt = d.step ∧ (d.bSign.word d.b).toInt = d.offset := by
  constructor
  · intro raw argument found
    exact classify_text (classify_shaped found) (unquoted_of_classify found)
  · rintro aSign bSign a b d rfl
    have formula := Dimension.formula_normal aSign bSign a b
    obtain ⟨step, offset⟩ := Formula.mk.inj formula
    refine ⟨Dimension.read_text (Dimension.normal_is_normal aSign bSign a b), ?_, ?_,
      Sign.to_int_word _ _, Sign.to_int_word _ _⟩
    · rw [step]
      cases aSign <;> rfl
    · rw [offset]
      cases bSign <;> rfl

/-- `-n+7`, and the dimension with the largest coefficient and a negative zero. -/
theorem padded_formula_classified_again :
    classify " - 01n +\t007" = some (.dimension (.normal .minus 1 .plus 7)) ∧
      classify "-n+7" = some (.dimension (.normal .minus 1 .plus 7)) ∧
      Dimension.read? "-4294967295n".toList = some ⟨4294967295, .minus, 0, .plus⟩ ∧
      Dimension.step ⟨4294967295, .minus, 0, .plus⟩ = -4294967295 ∧
      (Sign.minus.word 4294967295).toInt = -4294967295 := by
  have padded : classify " - 01n +\t007" = some (.dimension (.normal .minus 1 .plus 7)) := by
    decide +kernel
  obtain ⟨again, dimensions⟩ := canonical_text_classified_again
  obtain ⟨read, step, -, word, -⟩ := dimensions .minus .minus 4294967295 0 _ rfl
  have text : "-4294967295n" = (Dimension.normal .minus 4294967295 .minus 0).text := by
    decide +kernel
  exact ⟨padded, again _ _ padded, text ▸ read, step, word⟩

end Argument
end TreeSelect
