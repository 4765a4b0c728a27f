import CommitVerdict.Duration
import CommitVerdict.Proofs.Number.Rounding
import Mathlib.Algebra.Order.Field.Basic
import Mathlib.Algebra.Order.Field.Rat
import Mathlib.Tactic.Linarith

namespace CommitVerdict

/-- A rounded quotient is at most a half away, and less if it is odd. -/
theorem abs_roundHalfEven_sub_le (num : Nat) {den : Nat} (hden : 0 < den) :
    |(roundHalfEven num den : ℚ) - num / den| ≤ 1 / 2 ∧
      (roundHalfEven num den % 2 = 1 → |(roundHalfEven num den : ℚ) - num / den| < 1 / 2) := by
  have hpos : (0 : ℚ) < den := Nat.cast_pos.mpr hden
  have hscaled : (roundHalfEven num den : ℚ) - num / den = (roundHalfEven num den * den - num) / den := by
    rw [sub_div, mul_div_assoc, div_self hpos.ne', mul_one]
  obtain ⟨hbelow, habove⟩ := roundHalfEven_near num hden
  have hodd := roundHalfEven_odd num hden
  generalize roundHalfEven num den = r at *
  rw [hscaled, abs_div, abs_of_pos hpos, div_le_iff₀ hpos, div_lt_iff₀ hpos, abs_le, abs_lt]
  have hbelow : (2 : ℚ) * num ≤ 2 * (r * den) + den := by exact_mod_cast hbelow
  have habove : (2 : ℚ) * (r * den) ≤ 2 * num + den := by exact_mod_cast habove
  refine ⟨⟨by linarith, by linarith⟩, fun hr => ?_⟩
  obtain ⟨hless, hmore⟩ := hodd hr
  have hless : (2 : ℚ) * num < 2 * (r * den) + den := by exact_mod_cast hless
  have hmore : (2 : ℚ) * (r * den) < 2 * num + den := by exact_mod_cast hmore
  exact ⟨by linarith, by linarith⟩

namespace Binary64

variable {x : Binary64}

/-- The number that a double stands for. -/
def value (x : Binary64) : ℚ := (if x.negative then -1 else 1) * ((x.magnitude : ℚ) / unitDenominator)

theorem magnitude_of_isZero (hzero : x.isZero = true) : x.magnitude = 0 := by
  have hordinal : x.ordinal = 0 := beq_iff_eq.mp hzero
  rw [magnitude, significand, hordinal]
  exact Nat.zero_mul _

theorem magnitude_pos_of_not_isZero (hzero : x.isZero = false) : 0 < x.magnitude :=
  magnitude_pos (Nat.pos_of_ne_zero (beq_eq_false_iff_ne.mp hzero))

theorem value_neg_iff : x.value < 0 ↔ x.negative = true ∧ x.isZero = false := by
  have hunit : (0 : ℚ) < unitDenominator := Nat.cast_pos.mpr unitDenominator_pos
  rw [value]
  generalize (unitDenominator : ℚ) = unit at hunit ⊢
  cases hzero : x.isZero with
  | true => simp [magnitude_of_isZero hzero]
  | false =>
    have hpos : (0 : ℚ) < x.magnitude / unit :=
      div_pos (Nat.cast_pos.mpr (magnitude_pos_of_not_isZero hzero)) hunit
    cases hnegative : x.negative with
    | true => simpa using hpos
    | false => simpa using hpos.le

theorem value_of_nonneg (hvalue : 0 ≤ x.value) : x.value = x.magnitude / unitDenominator := by
  cases hnegative : x.negative with
  | false => rw [value, hnegative, if_neg Bool.false_ne_true, one_mul]
  | true =>
    have hzero : x.isZero = true := by
      by_contra hne
      exact absurd (value_neg_iff.mpr ⟨hnegative, by simpa using hne⟩) (not_lt.mpr hvalue)
    rw [value, magnitude_of_isZero hzero, Nat.cast_zero, zero_div, mul_zero]

/-- The doubles below `2 ^ 64` end 2048 before it. -/
theorem magnitude_le_of_lt (hless : x.magnitude < 18446744073709551616 * unitDenominator) :
    x.magnitude ≤ 18446744073709549568 * unitDenominator ∧ x.isFinite = true := by
  have hpower (k n : Nat) : 2 ^ (k + n) = 2 ^ k * Nat.pow 2 n := Nat.pow_add 2 k n
  have hstep (k : Nat) : 2 ^ (k + 1074) = 2 ^ k * unitDenominator := hpower k 1074
  have hcount : 4503599627370496 * 2 ^ 12 = 18446744073709551616 := by decide
  have hcount' : 9007199254740991 * 2 ^ 11 = 18446744073709549568 := by decide
  have hbound : (⟨false, (12 + 1074) * 4503599627370496 + 4503599627370496⟩ : Binary64).magnitude =
      18446744073709551616 * unitDenominator := by
    rw [magnitude_of_ordinal false (by decide) (.inr (by decide)), hstep, ← Nat.mul_assoc, hcount]
  have hlast : (⟨false, (11 + 1074) * 4503599627370496 + 9007199254740991⟩ : Binary64).magnitude =
      18446744073709549568 * unitDenominator := by
    rw [magnitude_of_ordinal false (by decide) (.inr (by decide)), hstep, ← Nat.mul_assoc, hcount']
  have hordinal : x.ordinal < (12 + 1074) * 4503599627370496 + 4503599627370496 := by
    by_contra hge
    have hle := magnitude_le_magnitude
      (x := ⟨false, (12 + 1074) * 4503599627370496 + 4503599627370496⟩) (Nat.not_lt.mp hge)
    rw [hbound] at hle
    exact absurd hless (Nat.not_lt.mpr hle)
  constructor
  · rw [← hlast]
    exact magnitude_le_magnitude (Nat.le_of_lt_succ hordinal)
  · rw [isFinite, decide_eq_true_eq]
    exact hordinal.trans (by decide)

end Binary64

namespace Duration

open Binary64

variable {x : Binary64} {d e : Duration} {q : ℚ}

/-- A duration is the nearest one to a number of seconds; a tie goes to the even one. -/
structure Nearest (d : Duration) (q : ℚ) : Prop where
  near : |(d.nanoseconds : ℚ) - q * perSecond| ≤ 1 / 2
  odd : d.nanoseconds % 2 = 1 → |(d.nanoseconds : ℚ) - q * perSecond| < 1 / 2

theorem Nearest.unique (hd : d.Nearest q) (he : e.Nearest q) : d = e := by
  have hle {d e : Duration} (hd : d.Nearest q) (he : e.Nearest q) : d.nanoseconds ≤ e.nanoseconds := by
    by_contra hlt
    have hnext : e.nanoseconds + 1 ≤ d.nanoseconds := by omega
    have hcast : (e.nanoseconds : ℚ) + 1 ≤ d.nanoseconds := by exact_mod_cast hnext
    have hdnear := abs_le.mp hd.near
    have henear := abs_le.mp he.near
    have hsucc : d.nanoseconds = e.nanoseconds + 1 := by
      have hcast : (d.nanoseconds : ℚ) ≤ e.nanoseconds + 1 := by linarith
      have hless : d.nanoseconds ≤ e.nanoseconds + 1 := by exact_mod_cast hcast
      omega
    -- both are a half away, and one of two neighbours is odd
    rcases Nat.mod_two_eq_zero_or_one e.nanoseconds with heven | hodd
    · have hodd := abs_lt.mp (hd.odd (by omega))
      linarith
    · have hodd := abs_lt.mp (he.odd hodd)
      linarith
  have hsame : d.nanoseconds = e.nanoseconds := Nat.le_antisymm (hle hd he) (hle he hd)
  cases d
  cases e
  exact congrArg Duration.mk hsame

/-- A number of nanoseconds is rounded to one below the bound exactly if it is below it. -/
theorem roundHalfEven_lt_iff (x : Binary64) :
    roundHalfEven (x.magnitude * perSecond) unitDenominator < 18446744073709551616 * perSecond ↔
      x.magnitude < 18446744073709551616 * unitDenominator := by
  have hlast := magnitude_le_of_lt (x := x)
  have hunit := unitDenominator_pos
  obtain ⟨hbelow, habove⟩ := roundHalfEven_near (x.magnitude * perSecond) hunit
  have hsecond : perSecond = 1000000000 := rfl
  generalize roundHalfEven (x.magnitude * perSecond) unitDenominator = total at *
  generalize unitDenominator = u at *
  rw [hsecond] at hbelow habove ⊢
  constructor
  · intro htotal
    have hproduct := Nat.mul_le_mul_right u (Nat.succ_le_of_lt htotal)
    rw [Nat.succ_mul] at hproduct
    omega
  · intro hless
    by_contra hlarge
    have hproduct := Nat.mul_le_mul_right u (Nat.not_lt.mp hlarge)
    have hmagnitude := (hlast hless).1
    omega

theorem value_lt_iff (hnonneg : 0 ≤ x.value) :
    x.value < 2 ^ 64 ↔ x.magnitude < 18446744073709551616 * unitDenominator := by
  have hunit : (0 : ℚ) < unitDenominator := Nat.cast_pos.mpr unitDenominator_pos
  have hpower : (2 : ℚ) ^ 64 = (18446744073709551616 : Nat) := by norm_num
  rw [value_of_nonneg hnonneg, div_lt_iff₀ hunit, hpower, ← Nat.cast_mul, Nat.cast_lt]

theorem ofSeconds_of_nonneg (hnonneg : 0 ≤ x.value) :
    ofSeconds x = if x.value < 2 ^ 64 then
      .ok ⟨roundHalfEven (x.magnitude * perSecond) unitDenominator⟩ else .error .tooBig := by
  have hsign : (x.negative && !x.isZero) = false := by
    by_contra hsign
    simp only [Bool.not_eq_false, Bool.and_eq_true, Bool.not_eq_true'] at hsign
    exact absurd (value_neg_iff.mpr hsign) (not_lt.mpr hnonneg)
  have hpower : Nat.pow 2 64 = 18446744073709551616 := rfl
  simp only [ofSeconds, hsign, Bool.false_eq_true, if_false, hpower]
  by_cases hless : x.value < 2 ^ 64
  · have hmagnitude := (value_lt_iff hnonneg).mp hless
    have htotal := (roundHalfEven_lt_iff x).mpr hmagnitude
    rw [if_pos hless]
    exact if_pos (Bool.and_eq_true_iff.mpr ⟨(magnitude_le_of_lt hmagnitude).2, decide_eq_true htotal⟩)
  · have htotal := mt (roundHalfEven_lt_iff x).mp (mt (value_lt_iff hnonneg).mpr hless)
    rw [if_neg hless]
    exact if_neg fun hboth => htotal (of_decide_eq_true (Bool.and_eq_true_iff.mp hboth).2)

theorem nearest_roundHalfEven (hnonneg : 0 ≤ x.value) :
    Nearest ⟨roundHalfEven (x.magnitude * perSecond) unitDenominator⟩ x.value := by
  have hproduct : ((x.magnitude * perSecond : Nat) : ℚ) / unitDenominator = x.value * perSecond := by
    rw [value_of_nonneg hnonneg, Nat.cast_mul, div_mul_eq_mul_div]
  obtain ⟨hnear, hodd⟩ := abs_roundHalfEven_sub_le (x.magnitude * perSecond) unitDenominator_pos
  rw [hproduct] at hnear hodd
  generalize roundHalfEven (x.magnitude * perSecond) unitDenominator = total at *
  exact ⟨hnear, hodd⟩

/-- What becomes of a number of seconds. -/
theorem ofSeconds_cases (x : Binary64) :
    (x.value < 0 ∧ ofSeconds x = .error .negative) ∨
      (2 ^ 64 ≤ x.value ∧ ofSeconds x = .error .tooBig) ∨
      (0 ≤ x.value ∧ x.value < 2 ^ 64 ∧ ∃ d : Duration, ofSeconds x = .ok d ∧ d.Nearest x.value) := by
  by_cases hnegative : x.value < 0
  · obtain ⟨hsign, hzero⟩ := value_neg_iff.mp hnegative
    exact .inl ⟨hnegative, by simp [ofSeconds, hsign, hzero]⟩
  · have hnonneg : 0 ≤ x.value := not_lt.mp hnegative
    right
    by_cases hless : x.value < 2 ^ 64
    · exact .inr ⟨hnonneg, hless, _, (ofSeconds_of_nonneg hnonneg).trans (if_pos hless),
        nearest_roundHalfEven hnonneg⟩
    · exact .inl ⟨not_lt.mp hless, (ofSeconds_of_nonneg hnonneg).trans (if_neg hless)⟩

theorem ofSeconds_eq_ok_iff : ofSeconds x = .ok d ↔ 0 ≤ x.value ∧ x.value < 2 ^ 64 ∧ d.Nearest x.value := by
  rcases ofSeconds_cases x with ⟨hnegative, herror⟩ | ⟨hlarge, herror⟩ | ⟨hnonneg, hless, e, hok, hnearest⟩
  · simp [herror, hnegative]
  · simp [herror, hlarge]
  · simp only [hok, Except.ok.injEq, hnonneg, hless, true_and]
    exact ⟨fun heq => heq ▸ hnearest, fun hd => hnearest.unique hd⟩

theorem exists_ofSeconds_eq_error_iff :
    (∃ reason, ofSeconds x = .error reason) ↔ x.value < 0 ∨ 2 ^ 64 ≤ x.value := by
  rcases ofSeconds_cases x with ⟨hnegative, herror⟩ | ⟨hlarge, herror⟩ | ⟨hnonneg, hless, e, hok, hnearest⟩
  · simp [herror, hnegative]
  · simp [herror, hlarge]
  · simp [hok, hnonneg, hless]

end Duration

end CommitVerdict
