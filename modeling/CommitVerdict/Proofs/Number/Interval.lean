import CommitVerdict.Number.Decimal
import Mathlib.Algebra.Order.Field.Rat
import Mathlib.Tactic.Linarith

namespace CommitVerdict

namespace Binary64

variable {x y : Binary64}

theorem pow_fractionBits : Nat.pow 2 fractionBits = 4503599627370496 := rfl

/-- The doubles below the first power of two are as far apart as can be told; from there on, each power of
two doubles the distance. -/
theorem ordinal_cases (x : Binary64) :
    (x.ordinal < 4503599627370496 ∧ x.significand = x.ordinal ∧ x.scale = 0) ∨
      ∃ k r, r < 4503599627370496 ∧ x.ordinal = (k + 1) * 4503599627370496 + r ∧
        x.significand = 4503599627370496 + r ∧ x.scale = k := by
  rcases Nat.lt_or_ge x.ordinal 4503599627370496 with hlt | hge
  · refine .inl ⟨hlt, ?_, ?_⟩
    · rw [significand, pow_fractionBits, if_pos hlt]
    · rw [scale, pow_fractionBits, Nat.div_eq_of_lt hlt]
  · refine .inr ⟨x.ordinal / 4503599627370496 - 1, x.ordinal % 4503599627370496,
      Nat.mod_lt _ (by decide), ?_, ?_, ?_⟩
    · omega
    · rw [significand, pow_fractionBits, if_neg (by omega)]
    · rw [scale, pow_fractionBits]

theorem significand_lt (x : Binary64) : x.significand < 9007199254740992 := by
  rcases x.ordinal_cases with ⟨hlt, hsignificand, -⟩ | ⟨k, r, hr, -, hsignificand, -⟩ <;> omega

theorem step_pos (x : Binary64) : 0 < x.step := Nat.pos_of_ne_zero (by simp [step])

theorem step_of_scale {k : Nat} (hscale : x.scale = k) : x.step = 2 ^ k := by
  rw [step, hscale]
  rfl

theorem magnitude_eq (x : Binary64) : x.magnitude = x.significand * x.step := rfl

theorem significand_pos (hpos : 0 < x.ordinal) : 0 < x.significand := by
  rcases x.ordinal_cases with ⟨hlt, hsignificand, -⟩ | ⟨k, r, hr, -, hsignificand, -⟩ <;> omega

theorem magnitude_pos (hpos : 0 < x.ordinal) : 0 < x.magnitude :=
  Nat.mul_pos (significand_pos hpos) x.step_pos

/-- Below a double there is a gap of its step, but only of half of it where the steps double. -/
theorem lowEnd_eq {gap : Nat}
    (hgap : if x.significand = 4503599627370496 ∧ x.scale ≠ 0 then x.step = 2 * gap else x.step = gap) :
    x.lowEnd = 4 * x.magnitude - 2 * gap := by
  rw [lowEnd, pow_fractionBits]
  simp only [Bool.and_eq_true, beq_iff_eq, bne_iff_ne]
  split at hgap
  · rename_i hpower
    rw [if_pos hpower, hgap]
  · rename_i hpower
    rw [if_neg hpower, hgap]

/-- The step of a double leads to the next one, and is the gap below that one. -/
theorem succ_spec (hsucc : y.ordinal = x.ordinal + 1) :
    y.magnitude = x.magnitude + x.step ∧ y.lowEnd = 4 * y.magnitude - 2 * x.step := by
  rw [magnitude_eq, magnitude_eq]
  rcases x.ordinal_cases with ⟨hx, hxsig, hxscale⟩ | ⟨k, r, hr, hx, hxsig, hxscale⟩
  · -- `x` is subnormal, and `y` is so too or is the first one that is not
    have hystep : y.step = 2 ^ 0 ∧ y.significand = x.significand + 1 ∧ y.scale = 0 := by
      rcases y.ordinal_cases with ⟨hy, hysig, hyscale⟩ | ⟨k', r', hr', hy, hysig, hyscale⟩
      · exact ⟨step_of_scale hyscale, by omega, hyscale⟩
      · obtain ⟨rfl, rfl⟩ : k' = 0 ∧ r' = 0 := by omega
        exact ⟨step_of_scale hyscale, by omega, hyscale⟩
    have hxstep := step_of_scale hxscale
    refine ⟨by rw [hystep.1, hystep.2.1, hxstep, Nat.succ_mul], lowEnd_eq ?_⟩
    rw [if_neg (fun hpower => hpower.2 hystep.2.2), hystep.1, hxstep]
  · have hxstep := step_of_scale hxscale
    obtain ⟨k', r', hr', hy, hysig, hyscale⟩ : ∃ k' r', r' < 4503599627370496 ∧
        y.ordinal = (k' + 1) * 4503599627370496 + r' ∧ y.significand = 4503599627370496 + r' ∧
          y.scale = k' := by
      rcases y.ordinal_cases with ⟨hy, -⟩ | hnormal
      · omega
      · exact hnormal
    have hystep := step_of_scale hyscale
    by_cases hlast : r + 1 = 4503599627370496
    · -- `y` is the next power of two
      obtain ⟨rfl, rfl⟩ : k' = k + 1 ∧ r' = 0 := by omega
      have hdouble : y.step = 2 * x.step := by rw [hystep, hxstep, Nat.pow_succ, Nat.mul_comm]
      refine ⟨?_, lowEnd_eq ?_⟩
      · rw [hysig, hxsig, hdouble, ← Nat.succ_mul, ← Nat.mul_assoc]
        congr 1
        omega
      · rw [if_pos ⟨hysig, by omega⟩, hdouble]
    · obtain ⟨rfl, rfl⟩ : k' = k ∧ r' = r + 1 := by omega
      have hsame : y.step = x.step := hystep.trans hxstep.symm
      refine ⟨?_, lowEnd_eq ?_⟩
      · rw [hysig, hxsig, hsame, ← Nat.succ_mul]
        rfl
      · rw [if_neg (fun hpower => by omega), hsame]

/-- The interval of a double ends where that of the next one begins. -/
theorem lowEnd_succ (hsucc : y.ordinal = x.ordinal + 1) : y.lowEnd = x.highEnd := by
  obtain ⟨hmagnitude, hlow⟩ := succ_spec hsucc
  rw [hlow, hmagnitude, highEnd]
  omega

theorem lowEnd_lt_highEnd (x : Binary64) : x.lowEnd < x.highEnd := by
  have hstep := x.step_pos
  rw [lowEnd, highEnd]
  omega

/-- The intervals lie in the order of their doubles. -/
theorem highEnd_le_lowEnd (hlt : x.ordinal < y.ordinal) : x.highEnd ≤ y.lowEnd := by
  obtain ⟨d, hd⟩ : ∃ d, y.ordinal = x.ordinal + d + 1 := ⟨y.ordinal - x.ordinal - 1, by omega⟩
  induction d generalizing y with
  | zero => exact (lowEnd_succ hd).ge
  | succ d ih =>
    let z : Binary64 := ⟨false, x.ordinal + d + 1⟩
    have hz : x.highEnd ≤ z.lowEnd := ih (show x.ordinal < x.ordinal + d + 1 by omega) rfl
    exact (hz.trans z.lowEnd_lt_highEnd.le).trans (lowEnd_succ (x := z) hd).ge

theorem magnitude_le_magnitude (hle : x.ordinal ≤ y.ordinal) : x.magnitude ≤ y.magnitude := by
  rcases hle.lt_or_eq with hlt | heq
  · have hends := highEnd_le_lowEnd hlt
    rw [highEnd, lowEnd] at hends
    omega
  · simp only [magnitude, significand, scale, heq, le_refl]

theorem isEven_iff : x.isEven = true ↔ x.ordinal % 2 = 0 := by
  rw [isEven, beq_iff_eq]
  rcases x.ordinal_cases with ⟨-, hsig, -⟩ | ⟨k, r, -, hx, hsig, -⟩ <;> omega

/-- A number lies in the interval of those that round to a double. -/
def Covers (x : Binary64) (q : ℚ) : Prop :=
  if x.isEven then x.lowEnd ≤ 4 * unitDenominator * q ∧ 4 * unitDenominator * q ≤ x.highEnd
  else x.lowEnd < 4 * unitDenominator * q ∧ 4 * unitDenominator * q < x.highEnd

theorem Covers.le {q : ℚ} (hcovers : x.Covers q) :
    x.lowEnd ≤ 4 * unitDenominator * q ∧ 4 * unitDenominator * q ≤ x.highEnd := by
  unfold Covers at hcovers
  split at hcovers
  · exact hcovers
  · exact ⟨hcovers.1.le, hcovers.2.le⟩

theorem Covers.not_lt {q : ℚ} (hx : x.Covers q) (hy : y.Covers q) : ¬ x.ordinal < y.ordinal := by
  intro hlt
  have hends : (x.highEnd : ℚ) ≤ y.lowEnd := Nat.cast_le.mpr (highEnd_le_lowEnd hlt)
  -- the two intervals can only share an end
  have hhigh : 4 * unitDenominator * q = x.highEnd := by linarith [hx.le.2, hy.le.1]
  have hlow : 4 * unitDenominator * q = y.lowEnd := by linarith [hx.le.2, hy.le.1]
  have hxeven : x.isEven = true := by
    by_contra hodd
    rw [Covers, if_neg hodd] at hx
    exact hx.2.ne hhigh
  have hyeven : y.isEven = true := by
    by_contra hodd
    rw [Covers, if_neg hodd] at hy
    exact hy.1.ne hlow.symm
  rw [isEven_iff] at hxeven hyeven
  let z : Binary64 := ⟨false, x.ordinal + 1⟩
  have hbetween : x.highEnd < y.lowEnd := by
    have hz : z.ordinal < y.ordinal := show x.ordinal + 1 < y.ordinal by omega
    calc x.highEnd = z.lowEnd := (lowEnd_succ rfl).symm
      _ < z.highEnd := z.lowEnd_lt_highEnd
      _ ≤ y.lowEnd := highEnd_le_lowEnd hz
  exact hbetween.ne (Nat.cast_injective (R := ℚ) (hhigh.symm.trans hlow))

/-- No number lies in the intervals of two doubles. -/
theorem Covers.ordinal_eq {q : ℚ} (hx : x.Covers q) (hy : y.Covers q) : x.ordinal = y.ordinal :=
  Nat.le_antisymm (Nat.not_lt.mp (hy.not_lt hx)) (Nat.not_lt.mp (hx.not_lt hy))

end Binary64

end CommitVerdict
