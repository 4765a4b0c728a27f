import CommitVerdict.Proofs.Number.Rounding
import Mathlib.Tactic.FieldSimp
import Mathlib.Tactic.NormNum
import Mathlib.Tactic.Positivity
import Mathlib.Tactic.Ring

namespace CommitVerdict

/-- The size of a decimal, whatever its sign is. -/
def Decimal.size (d : Decimal) : ℚ := d.significand * (10 : ℚ) ^ d.exponent

namespace Binary64

variable {x : Binary64} {g : Int} {n : Nat}

theorem reads_iff : x.reads g n = true ↔
    if x.isEven then scaledTo x.lowEnd g ≤ 4 * n * gridOf g ∧ 4 * n * gridOf g ≤ scaledTo x.highEnd g
    else scaledTo x.lowEnd g < 4 * n * gridOf g ∧ 4 * n * gridOf g < scaledTo x.highEnd g := by
  unfold reads
  dsimp only
  split <;> simp

/-- A power of ten over the denominator of its grid. -/
theorem zpow_mul_denominator (g : Int) :
    (10 : ℚ) ^ g * ((Nat.pow 10 (-g).toNat : Nat) : ℚ) = (Nat.pow 10 g.toNat : Nat) := by
  have hten : (10 : ℚ) ≠ 0 := by norm_num
  have hsplit : g + ((-g).toNat : Int) = g.toNat := by omega
  simp only [Nat.pow_eq, Nat.cast_pow, Nat.cast_ofNat]
  rw [← zpow_natCast, ← zpow_natCast, ← zpow_add₀ hten, hsplit]

/-- What rounds to the number on a grid is a decimal in its interval. -/
theorem covers_of_reads (hreads : x.reads g n = true) : x.Covers (n * (10 : ℚ) ^ g) := by
  have hdenominator : (0 : ℚ) < (Nat.pow 10 (-g).toNat : Nat) := by
    simp only [Nat.pow_eq]
    positivity
  have hposition : ((4 * n * gridOf g : Nat) : ℚ) =
      4 * unitDenominator * (n * (10 : ℚ) ^ g) * (Nat.pow 10 (-g).toNat : Nat) := by
    rw [mul_assoc _ _ ((Nat.pow 10 (-g).toNat : Nat) : ℚ), mul_assoc (n : ℚ), zpow_mul_denominator, gridOf]
    push_cast
    ring
  have hscaled (value : Nat) :
      ((scaledTo value g : Nat) : ℚ) = value * (Nat.pow 10 (-g).toNat : Nat) := Nat.cast_mul _ _
  rw [reads_iff] at hreads
  unfold Covers
  split <;> rename_i heven
  · rw [if_pos heven] at hreads
    obtain ⟨hlow, hhigh⟩ := hreads
    rw [← Nat.cast_le (α := ℚ), hposition, hscaled] at hlow hhigh
    exact ⟨le_of_mul_le_mul_right hlow hdenominator, le_of_mul_le_mul_right hhigh hdenominator⟩
  · rw [if_neg heven] at hreads
    obtain ⟨hlow, hhigh⟩ := hreads
    rw [← Nat.cast_lt (α := ℚ), hposition, hscaled] at hlow hhigh
    exact ⟨lt_of_mul_lt_mul_right hlow hdenominator.le, lt_of_mul_lt_mul_right hhigh hdenominator.le⟩

/-- A candidate rounds to the number, and is one of its two neighbours on the grid. -/
theorem candidate?_eq_some (hfound : x.candidate? g = some n) :
    x.reads g n = true ∧
      (n = scaledTo x.magnitude g / gridOf g ∨ n = scaledTo x.magnitude g / gridOf g + 1) := by
  have hnearest := (roundHalfEven_cases (scaledTo x.magnitude g) (gridOf g)).imp (·.1) (·.1)
  unfold candidate? at hfound
  dsimp only at hfound
  generalize hchoice : (if roundHalfEven (scaledTo x.magnitude g) (gridOf g) ==
    scaledTo x.magnitude g / gridOf g then scaledTo x.magnitude g / gridOf g + 1
    else scaledTo x.magnitude g / gridOf g) = other at hfound
  have hother : other = scaledTo x.magnitude g / gridOf g ∨
      other = scaledTo x.magnitude g / gridOf g + 1 := by
    rw [← hchoice]
    split
    · exact .inr rfl
    · exact .inl rfl
  split at hfound
  · rename_i hreads
    rw [← Option.some.inj hfound]
    exact ⟨hreads, hnearest⟩
  · split at hfound
    · rename_i hreads
      rw [← Option.some.inj hfound]
      exact ⟨hreads, hother⟩
    · cases hfound

/-- The nearest decimal of a grid is a candidate if it rounds to the number. -/
theorem candidate?_of_reads
    (hreads : x.reads g (roundHalfEven (scaledTo x.magnitude g) (gridOf g)) = true) :
    x.candidate? g = some (roundHalfEven (scaledTo x.magnitude g) (gridOf g)) := by
  unfold candidate?
  exact if_pos hreads

/-- The number of digits of a quotient, as bounds of its numerator. -/
theorem length_toDigits_spec {num den : Nat} (hden : 0 < den) (hle : den ≤ num) :
    let digits := (Nat.toDigits 10 (num / den)).length
    10 ^ (digits - 1) * den ≤ num ∧ num < 10 ^ digits * den := by
  intro digits
  have hpos : 0 < digits := Nat.length_toDigits_pos
  have hquotient : 0 < num / den := Nat.div_pos hle hden
  constructor
  · rw [← Nat.le_div_iff_mul_le hden]
    rcases Nat.lt_or_ge 1 digits with hmany | hone
    · by_contra hlt
      have hfewer := (Nat.length_toDigits_le_iff (b := 10) (n := num / den) (k := digits - 1) (by decide)
        (by omega)).mpr (Nat.not_le.mp hlt)
      change digits ≤ digits - 1 at hfewer
      omega
    · obtain hdigits : digits = 1 := by omega
      rw [hdigits]
      exact hquotient
  · rw [← Nat.div_lt_iff_lt_mul hden]
    exact (Nat.length_toDigits_le_iff (by decide) hpos).mp le_rfl

/-- Powers of ten on both sides of a comparison are cancelled. -/
theorem pow_mul_gridOf_le_iff {value p k c : Nat} (hpower : (p : Int) = k + c + g) :
    10 ^ p * unitDenominator ≤ value * Nat.pow 10 k ↔ 10 ^ c * gridOf g ≤ scaledTo value g := by
  have hpowers : p + (-g).toNat = k + c + g.toNat := by omega
  rw [gridOf, scaledTo]
  simp only [Nat.pow_eq]
  generalize g.toNat = a at *
  generalize (-g).toNat = b at *
  have hleft : 10 ^ p * unitDenominator * 10 ^ b = 10 ^ k * (10 ^ c * (unitDenominator * 10 ^ a)) := by
    calc 10 ^ p * unitDenominator * 10 ^ b = 10 ^ (p + b) * unitDenominator := by ring
      _ = 10 ^ (k + c + a) * unitDenominator := by rw [hpowers]
      _ = 10 ^ k * (10 ^ c * (unitDenominator * 10 ^ a)) := by ring
  have hright : value * 10 ^ k * 10 ^ b = 10 ^ k * (value * 10 ^ b) := by ring
  rw [← Nat.mul_le_mul_right_iff (Nat.pow_pos (n := b) (by decide : 0 < 10)), hleft, hright,
    Nat.mul_le_mul_left_iff (Nat.pow_pos (by decide))]

theorem unitDenominator_le : unitDenominator ≤ Nat.pow 10 340 := by
  decide +kernel

/-- The leading digit of a number stands at its leading exponent. -/
theorem leadingExponent_spec (hpos : 0 < x.ordinal) (more : Nat) :
    10 ^ more * gridOf (x.leadingExponent - more) ≤ scaledTo x.magnitude (x.leadingExponent - more) ∧
      scaledTo x.magnitude (x.leadingExponent - more) <
        10 ^ (more + 1) * gridOf (x.leadingExponent - more) := by
  have hunit : unitDenominator ≤ x.magnitude * Nat.pow 10 340 :=
    unitDenominator_le.trans (Nat.le_mul_of_pos_left _ (magnitude_pos hpos))
  obtain ⟨hlow, hhigh⟩ := length_toDigits_spec unitDenominator_pos hunit
  have hlength : 0 < (Nat.toDigits 10 (x.magnitude * Nat.pow 10 340 / unitDenominator)).length :=
    Nat.length_toDigits_pos
  have hleading : x.leadingExponent =
      (Nat.toDigits 10 (x.magnitude * Nat.pow 10 340 / unitDenominator)).length - 341 := rfl
  generalize (Nat.toDigits 10 (x.magnitude * Nat.pow 10 340 / unitDenominator)).length = digits at *
  have hfirst : ((digits - 1 : Nat) : Int) = (340 : Nat) + more + (x.leadingExponent - more) := by
    clear hlow hhigh hunit
    omega
  have hbeyond : (digits : Int) = (340 : Nat) + (more + 1 : Nat) + (x.leadingExponent - more) := by
    clear hlow hhigh hunit
    omega
  rw [pow_mul_gridOf_le_iff hfirst] at hlow
  rw [← Nat.not_le, pow_mul_gridOf_le_iff hbeyond, Nat.not_le] at hhigh
  exact ⟨hlow, hhigh⟩

theorem gridOf_pos (g : Int) : 0 < gridOf g := Nat.mul_pos unitDenominator_pos (Nat.pow_pos (by decide))

/-- The ends of the interval of a double on a grid, by its step there. -/
theorem scaledTo_ends (x : Binary64) (g : Int) :
    scaledTo x.magnitude g = x.significand * scaledTo x.step g ∧
      scaledTo x.highEnd g = 4 * scaledTo x.magnitude g + 2 * scaledTo x.step g ∧
      (scaledTo x.lowEnd g = 4 * scaledTo x.magnitude g - 2 * scaledTo x.step g ∨
        x.significand = 4503599627370496 ∧
          scaledTo x.lowEnd g = 4 * scaledTo x.magnitude g - scaledTo x.step g) := by
  refine ⟨?_, ?_, ?_⟩
  · simp only [scaledTo, magnitude_eq, Nat.mul_assoc]
  · simp only [scaledTo, highEnd, Nat.add_mul, Nat.mul_assoc]
  · rw [scaledTo, lowEnd, pow_fractionBits]
    split
    · rename_i hpower
      simp only [Bool.and_eq_true, beq_iff_eq] at hpower
      refine .inr ⟨hpower.1, ?_⟩
      simp only [scaledTo, Nat.sub_mul, Nat.mul_assoc]
    · left
      simp only [scaledTo, Nat.sub_mul, Nat.mul_assoc]

/-- With seventeen digits the grid is so fine that the nearest decimal rounds to the number. -/
theorem reads_nearest (hpos : 0 < x.ordinal) :
    x.reads (x.leadingExponent - (16 : Nat))
      (roundHalfEven (scaledTo x.magnitude (x.leadingExponent - (16 : Nat)))
        (gridOf (x.leadingExponent - (16 : Nat)))) = true := by
  have hfine := (leadingExponent_spec hpos 16).1
  generalize x.leadingExponent - (16 : Nat) = g at *
  obtain ⟨hvalue, hhigh, hlow⟩ := scaledTo_ends x g
  obtain ⟨hbelow, habove⟩ := roundHalfEven_near (scaledTo x.magnitude g) (gridOf_pos g)
  have hstep : 0 < scaledTo x.step g := Nat.mul_pos x.step_pos (Nat.pow_pos (by decide))
  have hwidest : scaledTo x.magnitude g ≤ 9007199254740991 * scaledTo x.step g := by
    rw [hvalue]
    exact Nat.mul_le_mul_right _ (Nat.le_of_lt_succ x.significand_lt)
  have hleast : scaledTo x.step g ≤ scaledTo x.magnitude g := by
    rw [hvalue]
    exact Nat.le_mul_of_pos_left _ (significand_pos hpos)
  generalize roundHalfEven (scaledTo x.magnitude g) (gridOf g) = n at *
  have hgrid : gridOf g < scaledTo x.step g := by omega
  have hstrict : scaledTo x.lowEnd g < 4 * (n * gridOf g) ∧ 4 * (n * gridOf g) < scaledTo x.highEnd g := by
    rcases hlow with hlow | ⟨hpower, hlow⟩
    · omega
    · rw [hpower] at hvalue
      omega
  rw [← Nat.mul_assoc] at hstrict
  rw [reads_iff]
  split
  · exact ⟨hstrict.1.le, hstrict.2.le⟩
  · exact hstrict

/-- A candidate on a grid has at least one digit, and no more than the grid has places. -/
theorem candidate?_bounds (hpos : 0 < x.ordinal) {more : Nat}
    (hfound : x.candidate? (x.leadingExponent - more) = some n) : 0 < n ∧ n ≤ 10 ^ (more + 1) := by
  obtain ⟨hlow, hhigh⟩ := leadingExponent_spec hpos more
  have hneighbour := (candidate?_eq_some hfound).2
  have hgrid := gridOf_pos (x.leadingExponent - more)
  have hfloor := (Nat.le_div_iff_mul_le hgrid).mpr hlow
  have hceiling := (Nat.div_lt_iff_lt_mul hgrid).mpr hhigh
  have hten : 0 < 10 ^ more := Nat.pow_pos (by decide)
  omega

/-- A candidate is found, and rounds to the number. -/
theorem firstCandidate?_spec (hpos : 0 < x.ordinal) :
    ∃ n g, x.firstCandidate? = some (n, g) ∧ x.Covers (n * (10 : ℚ) ^ g) ∧ 0 < n ∧ n ≤ 10 ^ 17 := by
  have hsome : x.firstCandidate?.isSome = true := by
    rw [firstCandidate?, List.findSome?_isSome_iff]
    refine ⟨16, by decide, ?_⟩
    dsimp only
    rw [candidate?_of_reads (reads_nearest hpos)]
    rfl
  obtain ⟨⟨n, g⟩, hfound⟩ := Option.isSome_iff_exists.mp hsome
  obtain ⟨more, hmore, hcandidate⟩ := List.exists_of_findSome?_eq_some hfound
  obtain ⟨m, hm, hpair⟩ := Option.map_eq_some_iff.mp hcandidate
  obtain ⟨rfl, rfl⟩ := Prod.mk.inj hpair
  obtain ⟨hmpos, hmle⟩ := candidate?_bounds hpos hm
  refine ⟨m, _, hfound, covers_of_reads (candidate?_eq_some hm).1, hmpos, hmle.trans ?_⟩
  exact Nat.pow_le_pow_right (by decide) (List.mem_range.mp hmore)

/-- Trailing zeros are dropped without a change of the number. -/
theorem trimZeros_spec (fuel n : Nat) (g : Int) :
    let trimmed := trimZeros fuel n g
    trimmed.1 * (10 : ℚ) ^ trimmed.2 = n * (10 : ℚ) ^ g ∧ trimmed.1 ≤ n ∧ (0 < n → 0 < trimmed.1) := by
  induction fuel generalizing n g with
  | zero => exact ⟨rfl, le_rfl, id⟩
  | succ fuel ih =>
    simp only [trimZeros]
    split
    · rename_i hzero
      simp only [ne_eq, decide_not, Bool.and_eq_true, Bool.not_eq_true', decide_eq_false_iff_not,
        beq_iff_eq] at hzero
      obtain ⟨hvalue, hle, hpos⟩ := ih (n / 10) (g + 1)
      refine ⟨?_, by omega, fun _ => hpos (by omega)⟩
      have hn : (n : ℚ) = (n / 10 : Nat) * 10 := by
        exact_mod_cast (Nat.div_mul_cancel (Nat.dvd_of_mod_eq_zero hzero.2)).symm
      rw [hvalue, zpow_add_one₀ (by norm_num), hn]
      ring
    · exact ⟨rfl, le_rfl, id⟩

/-- The shortest decimal of a double other than zero lies in its interval, and has seventeen digits at most. -/
theorem shortest_spec (hpos : 0 < x.ordinal) :
    x.Covers x.shortest.size ∧ 0 < x.shortest.significand ∧ x.shortest.significand ≤ 10 ^ 17 := by
  obtain ⟨n, g, hfound, hcovers, hnpos, hnle⟩ := firstCandidate?_spec hpos
  obtain ⟨hvalue, hle, hspos⟩ := trimZeros_spec 17 n g
  have hshortest : x.shortest = ⟨x.negative, (trimZeros 17 n g).1, (trimZeros 17 n g).2⟩ := by
    have hzero : x.isZero = false := by simp [isZero, hpos.ne']
    rw [shortest, hzero, hfound]
    rfl
  rw [hshortest]
  refine ⟨?_, hspos hnpos, hle.trans hnle⟩
  rw [Decimal.size, hvalue]
  exact hcovers

theorem shortest_of_zero (hzero : x.ordinal = 0) : x.shortest = ⟨x.negative, 0, 0⟩ := by
  have hzero : x.isZero = true := by simp [isZero, hzero]
  rw [shortest, hzero]
  rfl

theorem shortest_negative (x : Binary64) : x.shortest.negative = x.negative := by
  unfold shortest
  split <;> rfl

/-- The shortest decimal determines the double. -/
theorem eq_of_shortest {y : Binary64} (hnegative : x.shortest.negative = y.shortest.negative)
    (hsize : x.shortest.size = y.shortest.size) : x = y := by
  have hzero {z : Binary64} : z.shortest.size = 0 ↔ z.ordinal = 0 := by
    constructor
    · intro hsize
      by_contra hne
      obtain ⟨-, hspos, -⟩ := shortest_spec (Nat.pos_of_ne_zero hne)
      have hpos : 0 < z.shortest.size := mul_pos (Nat.cast_pos.mpr hspos) (zpow_pos (by norm_num) _)
      exact hpos.ne' hsize
    · intro hzero
      rw [shortest_of_zero hzero, Decimal.size]
      simp
  rw [shortest_negative, shortest_negative] at hnegative
  have hordinal : x.ordinal = y.ordinal := by
    rcases Nat.eq_zero_or_pos x.ordinal with hx | hx
    · rw [hx, hzero.mp (hsize.symm.trans (hzero.mpr hx))]
    · rcases Nat.eq_zero_or_pos y.ordinal with hy | hy
      · rw [hy, hzero.mp (hsize.trans (hzero.mpr hy))]
      · exact (shortest_spec hx).1.ordinal_eq (hsize ▸ (shortest_spec hy).1)
  cases x
  cases y
  exact congrArg₂ _ hnegative hordinal

end Binary64

end CommitVerdict
