import CommitVerdict.Proofs.Number.Shortest

namespace CommitVerdict

namespace NumberLiteral

/-- The number that all digits of a literal write. -/
def units (n : NumberLiteral) : Nat := Nat.ofDigitChars 10 n.fraction.chars n.whole

/-- The exponent at which the last digit of a literal stands. -/
def place (n : NumberLiteral) : Int := n.exponent.getD 0 - n.fraction.chars.length

/-- The size of a literal, whatever its sign is. -/
def size (n : NumberLiteral) : ℚ := n.units * (10 : ℚ) ^ n.place

end NumberLiteral

namespace Decimal

variable {d : Decimal}

/-- Cut digits are as many as the places, with zeros in front if need be. -/
theorem cutDigits_spec (significand : Nat) {places : Nat} (hpos : 0 < places) :
    (cutDigits significand places).chars.length = places ∧
      Nat.ofDigitChars 10 (cutDigits significand places).chars (significand / Nat.pow 10 places) =
        significand := by
  have hfits : (Nat.toDigits 10 (significand % Nat.pow 10 places)).length ≤ places :=
    (Nat.length_toDigits_le_iff (by decide) hpos).mpr (Nat.mod_lt _ (Nat.pow_pos (by decide)))
  have hlength : (cutDigits significand places).chars.length = places := by
    simp only [cutDigits, Digits.ofNat, List.length_append, List.length_replicate]
    omega
  refine ⟨hlength, ?_⟩
  rw [Nat.ofDigitChars_eq_ofDigitChars_zero, hlength]
  simp only [cutDigits, Digits.ofNat]
  rw [Nat.ofDigitChars_append, Nat.ofDigitChars_replicate_zero, Nat.mul_zero, Nat.ofDigitChars_ten_toDigits]
  exact Nat.div_add_mod significand (10 ^ places)

theorem positional_spec (hexponent : 0 ≤ d.exponent) :
    d.positional.units = d.significand * 10 ^ d.exponent.toNat * 10 ∧ d.positional.place = -1 := by
  rw [positional, if_pos hexponent]
  refine ⟨?_, rfl⟩
  change Nat.ofDigitChars 10 ['0'] (d.significand * 10 ^ d.exponent.toNat) = _
  rw [Nat.ofDigitChars_cons, Nat.ofDigitChars_nil]
  exact Nat.mul_comm _ _

theorem positional_spec_of_neg (hexponent : d.exponent < 0) :
    d.positional.units = d.significand ∧ d.positional.place = d.exponent := by
  have hplaces : 0 < (-d.exponent).toNat := by omega
  obtain ⟨hlength, hvalue⟩ := cutDigits_spec d.significand hplaces
  rw [positional, if_neg (by omega)]
  refine ⟨hvalue, ?_⟩
  simp only [NumberLiteral.place, hlength, Option.getD_none]
  omega

theorem exponential_spec : d.exponential.units = d.significand ∧ d.exponential.place = d.exponent := by
  have hdigits := Nat.length_toDigits_pos (b := 10) (n := d.significand)
  simp only [exponential, NumberLiteral.units, NumberLiteral.place, power, Option.getD_some]
  generalize (Nat.toDigits 10 d.significand).length = digits at *
  split
  · rename_i hone
    rw [hone]
    refine ⟨Nat.div_one _, ?_⟩
    simp only [Digits.empty, List.length_nil]
    omega
  · rename_i hmany
    obtain ⟨hlength, hvalue⟩ := cutDigits_spec d.significand (Nat.pos_of_ne_zero hmany)
    refine ⟨hvalue, ?_⟩
    rw [hlength]
    omega

/-- The literal of a decimal has the digits and the exponent of the decimal, or the digits up to one place
behind the point. -/
theorem literal_spec (d : Decimal) :
    (d.literal.units = d.significand ∧ d.literal.place = d.exponent) ∨
      (0 ≤ d.exponent ∧ (d.significand = 0 ∨ d.power ≤ 15) ∧
        d.literal.units = d.significand * 10 ^ d.exponent.toNat * 10 ∧ d.literal.place = -1) := by
  unfold literal
  split
  · rename_i hpositional
    simp only [Bool.or_eq_true, decide_eq_true_eq, Bool.and_eq_true] at hpositional
    rcases Int.lt_or_le d.exponent 0 with hneg | hpos
    · exact .inl (positional_spec_of_neg hneg)
    · exact .inr ⟨hpos, hpositional.imp_right (·.2), positional_spec hpos⟩
  · exact .inl exponential_spec

theorem literal_negative (d : Decimal) : d.literal.negative = d.negative := by
  unfold literal positional exponential
  split
  · split <;> rfl
  · rfl

theorem literal_size (d : Decimal) : d.literal.size = d.size := by
  rw [NumberLiteral.size, size]
  rcases d.literal_spec with ⟨hunits, hplace⟩ | ⟨hexponent, -, hunits, hplace⟩
  · rw [hunits, hplace]
  · obtain ⟨e, he⟩ := Int.eq_ofNat_of_zero_le hexponent
    rw [hunits, hplace, he, Int.toNat_natCast, zpow_natCast]
    push_cast
    field_simp

/-- Every literal has a point or an exponent. -/
theorem literal_not_integer (d : Decimal) :
    ¬ (d.literal.fraction.chars = [] ∧ d.literal.exponent = none) := by
  rintro ⟨hfraction, hexponent⟩
  unfold literal at hfraction hexponent
  split at hfraction
  · rename_i hpositional
    rw [if_pos hpositional] at hexponent
    rcases Int.lt_or_le d.exponent 0 with hneg | hpos
    · have hplaces : 0 < (-d.exponent).toNat := by omega
      have hlength := (cutDigits_spec d.significand hplaces).1
      rw [positional, if_neg (by omega)] at hfraction
      rw [hfraction] at hlength
      exact hplaces.ne hlength
    · rw [positional, if_pos hpos] at hfraction
      cases hfraction
  · rename_i hexponential
    rw [if_neg hexponential] at hexponent
    cases hexponent

end Decimal

namespace Binary64

/-- The written form of a double determines it. -/
theorem literal_injective : Function.Injective literal := by
  intro x y heq
  refine eq_of_shortest ?_ ?_
  · rw [← Decimal.literal_negative, ← Decimal.literal_negative]
    exact congrArg NumberLiteral.negative heq
  · rw [← Decimal.literal_size, ← Decimal.literal_size]
    exact congrArg NumberLiteral.size heq

end Binary64

end CommitVerdict
