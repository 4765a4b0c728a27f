import CommitVerdict.Json.Decode
import CommitVerdict.Proofs.Number.Notation

namespace CommitVerdict

namespace NumberLiteral

variable {n : NumberLiteral}

/-- Digits are absorbed to the last one if what they write fits. -/
theorem absorb_eq (ds : List Char) {start : Nat} (hfits : Nat.ofDigitChars 10 ds start < 2 ^ 64) :
    absorb start ds = (Nat.ofDigitChars 10 ds start, 0) := by
  induction ds generalizing start with
  | nil => rfl
  | cons d ds ih =>
    rw [Nat.ofDigitChars_cons, Nat.mul_comm] at hfits ⊢
    have hnext : start * 10 + (d.toNat - '0'.toNat) < Nat.pow 2 64 := by
      rw [Nat.ofDigitChars_eq_ofDigitChars_zero] at hfits
      have hle := Nat.le_mul_of_pos_left (start * 10 + (d.toNat - '0'.toNat))
        (Nat.pow_pos (n := ds.length) (by decide : 0 < 10))
      exact lt_of_le_of_lt (hle.trans (Nat.le_add_right _ _)) hfits
    rw [absorb]
    simp only [hnext, if_true]
    exact ih hfits

theorem whole_le_units (n : NumberLiteral) : n.whole ≤ n.units := by
  rw [units, Nat.ofDigitChars_eq_ofDigitChars_zero]
  exact (Nat.le_mul_of_pos_left _ (Nat.pow_pos (by decide))).trans (Nat.le_add_right _ _)

theorem absorb_whole {k : Nat} (hfits : k < 2 ^ 64) : absorb 0 (Nat.toDigits 10 k) = (k, 0) := by
  have hvalue : Nat.ofDigitChars 10 (Nat.toDigits 10 k) 0 = k := Nat.ofDigitChars_ten_toDigits
  have habsorb := absorb_eq (Nat.toDigits 10 k) (by rwa [hvalue])
  rwa [hvalue] at habsorb

/-- A whole number is read as itself. -/
theorem reading?_ofNat {k : Nat} (hfits : k < 2 ^ 64) : (ofNat k).reading? = some (.natural k) := by
  simp only [reading?, ofNat, absorb_whole hfits]
  rfl

/-- An integer is read as itself, one below zero as such. -/
theorem reading?_ofInt {i : Int} (hfits : i.natAbs < 2 ^ 63) :
    (ofInt i).reading? = some (if i < 0 then .negative i else .natural i.natAbs) := by
  simp only [reading?, ofInt, absorb_whole (hfits.trans (by decide))]
  rcases Int.lt_or_le i 0 with hneg | hpos
  · have hrange : 0 < i.natAbs ∧ i.natAbs ≤ Nat.pow 2 63 := ⟨by omega, hfits.le⟩
    simp [hneg, hrange, abs_of_neg, Digits.empty]
  · have hsign : ¬ i < 0 := by omega
    simp [hsign, Digits.empty]

/-- A literal with a point or an exponent whose digits fit is read as these, scaled to their place. -/
theorem reading?_eq_real (hpoint : ¬ (n.fraction.chars = [] ∧ n.exponent = none))
    (hfits : n.units < 2 ^ 64) :
    n.reading? = (if 0 ≤ n.place then scaleUp? (.ofNat n.units) n.place.toNat
      else some (scaleDown (.ofNat n.units) (-n.place).toNat)).map
        fun x => .real { x with negative := n.negative } := by
  have hinteger : (n.fraction.chars.isEmpty && n.exponent.isNone) = false := by
    rw [Bool.and_eq_false_iff, List.isEmpty_eq_false_iff, Option.isNone_eq_false_iff,
      Option.isSome_iff_ne_none]
    tauto
  have hplace : ((0 : Nat) : Int) - ((n.fraction.chars.length : Int) - (0 : Nat)) + n.exponent.getD 0 =
      n.place := by
    rw [place]
    omega
  simp only [reading?, absorb_whole ((whole_le_units n).trans_lt hfits), hinteger, Bool.false_and,
    Bool.false_eq_true, if_false, absorb_eq _ hfits, hplace]
  rfl

end NumberLiteral

namespace Binary64

variable {x : Binary64}

/-- The digits of the literal of a double fit into 64 bits. -/
theorem units_lt (hpos : 0 < x.ordinal) : x.literal.units < 2 ^ 64 := by
  obtain ⟨-, hsignificand, hle⟩ := shortest_spec hpos
  rcases x.shortest.literal_spec with ⟨hunits, -⟩ | ⟨hexponent, hsmall, hunits, -⟩
  · rw [literal, hunits]
    exact lt_of_le_of_lt hle (by decide)
  · obtain ⟨e, he⟩ := Int.eq_ofNat_of_zero_le hexponent
    rw [literal, hunits, he, Int.toNat_natCast]
    have hpower := hsmall.resolve_left hsignificand.ne'
    rw [Decimal.power, he] at hpower
    have hdigits := (Nat.length_toDigits_le_iff (by decide) Nat.length_toDigits_pos).mp
      (le_refl (Nat.toDigits 10 x.shortest.significand).length)
    generalize (Nat.toDigits 10 x.shortest.significand).length = digits at *
    calc x.shortest.significand * 10 ^ e * 10
        ≤ 10 ^ digits * 10 ^ e * 10 := Nat.mul_le_mul_right _ (Nat.mul_le_mul_right _ hdigits.le)
      _ = 10 ^ (digits + e) * 10 := by rw [Nat.pow_add]
      _ ≤ 10 ^ 16 * 10 := Nat.mul_le_mul_right _ (Nat.pow_le_pow_right (by decide) (by omega))
      _ < 2 ^ 64 := by decide

/-- The shortest decimal of a double without places behind the point is in its interval as a whole number. -/
theorem four_mul_le_highEnd (hpos : 0 < x.ordinal) {e : Nat} (he : x.shortest.exponent = e) :
    4 * (x.shortest.significand * 10 ^ e * unitDenominator) ≤ x.highEnd := by
  have hcovers := (shortest_spec hpos).1.le.2
  rw [Decimal.size, he, zpow_natCast] at hcovers
  have hcast : ((4 * (x.shortest.significand * 10 ^ e * unitDenominator) : Nat) : ℚ) ≤ x.highEnd := by
    push_cast
    linarith
  exact Nat.cast_le.mp hcast

/-- The greatest doubles, which rounding could take out of the finite ones, and zero. -/
theorem reading?_isSome_of_extreme : ∀ i ∈ [0, infiniteOrdinal - 1, infiniteOrdinal - 2, infiniteOrdinal - 3,
    infiniteOrdinal - 4, infiniteOrdinal - 5, infiniteOrdinal - 6], ∀ negative : Bool,
      (literal ⟨negative, i⟩).reading?.isSome = true := by
  decide +kernel

theorem scaleUp?_isSome {m e : Nat} (hm : 0 < m)
    (hsmall : 4 * (m * 10 ^ e * unitDenominator) ≤ (36028797018963968 - 22) * 2 ^ 2045) :
    (NumberLiteral.scaleUp? (ofNat m) e).isSome = true := by
  have he : e ≤ NumberLiteral.greatestPower := by
    by_contra hgreat
    have hmore : NumberLiteral.greatestPower + 1 ≤ e := Nat.not_le.mp hgreat
    have hpower : 10 ^ (NumberLiteral.greatestPower + 1) ≤ m * 10 ^ e := by
      calc 10 ^ (NumberLiteral.greatestPower + 1)
        _ ≤ 10 ^ e := Nat.pow_le_pow_right (by decide) hmore
        _ ≤ m * 10 ^ e := Nat.le_mul_of_pos_left _ hm
    have hlarge : (36028797018963968 - 22) * 2 ^ 2045 <
        4 * (10 ^ (NumberLiteral.greatestPower + 1) * unitDenominator) := by decide +kernel
    exact Nat.not_le.mpr hlarge ((Nat.mul_le_mul_left 4 (Nat.mul_le_mul_right _ hpower)).trans hsmall)
  have hfinite := isFinite_mul_ofNat hm (Nat.pow_pos (by decide)) hsmall
  rw [NumberLiteral.scaleUp?, if_pos he]
  simp only [Nat.pow_eq, hfinite, if_true, Option.isSome_some]

theorem reading?_literal (hfits : x.literal.units < 2 ^ 64) :
    x.literal.reading? = (if 0 ≤ x.literal.place then
        NumberLiteral.scaleUp? (.ofNat x.literal.units) x.literal.place.toNat
      else some (NumberLiteral.scaleDown (.ofNat x.literal.units) (-x.literal.place).toNat)).map
        fun y => .real { y with negative := x.literal.negative } :=
  NumberLiteral.reading?_eq_real x.shortest.literal_not_integer hfits

/-- The literal of a finite double can be read. -/
theorem reading?_isSome (hfinite : x.isFinite = true) : x.literal.reading?.isSome = true := by
  by_cases hextreme : x.ordinal ∈ [0, infiniteOrdinal - 1, infiniteOrdinal - 2, infiniteOrdinal - 3,
      infiniteOrdinal - 4, infiniteOrdinal - 5, infiniteOrdinal - 6]
  · exact reading?_isSome_of_extreme _ hextreme x.negative
  · have hordinals : infiniteOrdinal = 9218868437227405312 := rfl
    rw [isFinite, decide_eq_true_eq] at hfinite
    simp only [List.mem_cons, List.not_mem_nil, or_false, not_or] at hextreme
    have hpos : 0 < x.ordinal := by omega
    have hlt : x.ordinal < (⟨false, infiniteOrdinal - 6⟩ : Binary64).ordinal := by
      dsimp only
      omega
    rw [reading?_literal (units_lt hpos), Option.isSome_map]
    split
    · rename_i hplace
      rcases x.shortest.literal_spec with ⟨hunits, hsame⟩ | ⟨-, -, -, hsame⟩
      · rw [literal, hsame] at hplace
        obtain ⟨e, he⟩ := Int.eq_ofNat_of_zero_le hplace
        have hends : (⟨false, infiniteOrdinal - 6⟩ : Binary64).lowEnd ≤
            (36028797018963968 - 22) * 2 ^ 2045 := by decide +kernel
        rw [literal, hunits, hsame, he, Int.toNat_natCast]
        exact scaleUp?_isSome (shortest_spec hpos).2.1
          ((four_mul_le_highEnd hpos he).trans ((highEnd_le_lowEnd hlt).trans hends))
      · rw [literal, hsame] at hplace
        omega
    · rfl

/-- The double that the literal of a double is read as. -/
def reread (x : Binary64) : Binary64 :=
  match x.literal.reading? with
  | some number => number.toBinary64
  | none => x

/-- What is written for a double rounds to it. -/
theorem covers_literal (x : Binary64) : x.Covers x.literal.size := by
  rw [literal, Decimal.literal_size]
  rcases Nat.eq_zero_or_pos x.ordinal with hzero | hpos
  · have hmagnitude : x.magnitude = 0 := by
      rcases x.ordinal_cases with ⟨-, hsig, -⟩ | ⟨k, r, -, hordinal, -⟩
      · rw [magnitude_eq, hsig, hzero, Nat.zero_mul]
      · omega
    have heven : x.isEven = true := isEven_iff.mpr (by rw [hzero])
    have hsize : (⟨x.negative, 0, 0⟩ : Decimal).size = 0 := by rw [Decimal.size, Nat.cast_zero, zero_mul]
    rw [shortest_of_zero hzero, hsize, Covers, if_pos heven, lowEnd, hmagnitude, Nat.mul_zero, Nat.zero_sub,
      Nat.cast_zero, mul_zero]
    exact ⟨le_rfl, Nat.cast_nonneg _⟩
  · exact (shortest_spec hpos).1

theorem magnitude_tenPower : ∀ k < 23, (ofNat (10 ^ k)).magnitude = 10 ^ k * unitDenominator := by
  decide +kernel

/-- The literal of the double has few digits, as any number of up to fifteen has, and not too many places. -/
def IsShort (x : Binary64) : Prop :=
  x.literal.units < 9007199254740992 ∧ -22 ≤ x.literal.place ∧ x.literal.place < 0

/-- A double with a short literal is read as itself: neither its digits nor the power of ten are rounded, so
only their quotient is. -/
theorem reread_eq_self (hfinite : x.isFinite = true) (hshort : x.IsShort) : x.reread = x := by
  obtain ⟨hunits, hplace⟩ := hshort
  obtain ⟨k, hk⟩ := Int.eq_ofNat_of_zero_le (show 0 ≤ -x.literal.place by omega)
  have hplace_eq : x.literal.place = -(k : Int) := by omega
  have hnegative : x.literal.negative = x.negative := by
    rw [literal, Decimal.literal_negative, shortest_negative]
  have hdown : NumberLiteral.scaleDown (ofNat x.literal.units) k =
      ofRatio false (x.literal.units * unitDenominator) (10 ^ k * unitDenominator) := by
    have hk : k ≤ 22 := by omega
    rw [NumberLiteral.scaleDown, if_pos (hk.trans (by decide)), div, magnitude_ofNat hunits, Nat.pow_eq,
      magnitude_tenPower k (by omega)]
    rfl
  have hsize : ((x.literal.units * unitDenominator : Nat) : ℚ) / ((10 ^ k * unitDenominator : Nat) : ℚ) =
      x.literal.size := by
    have hunit : (unitDenominator : ℚ) ≠ 0 := Nat.cast_ne_zero.mpr unitDenominator_pos.ne'
    rw [NumberLiteral.size, hplace_eq, zpow_neg, zpow_natCast, Nat.cast_mul, Nat.cast_mul,
      mul_div_mul_right _ _ hunit, Nat.cast_pow, Nat.cast_ofNat, div_eq_mul_inv]
  have hpower : 0 < 10 ^ k * unitDenominator := Nat.mul_pos (Nat.pow_pos (by decide)) unitDenominator_pos
  have hround := ofRatio_eq_of_covers hpower hfinite (hsize ▸ x.covers_literal)
  have hreading : x.literal.reading? = some (.real x) := by
    rw [reading?_literal (hunits.trans (by decide)), if_neg (Int.not_le.mpr hplace.2), hplace_eq, Int.neg_neg,
      Int.toNat_natCast, hdown, hnegative, Option.map_some]
    exact congrArg (some ∘ JsonNumber.real) hround
  rw [reread, hreading]
  rfl

end Binary64

namespace Json

theorem decodeReal_literal {x : Binary64} (hfinite : x.isFinite = true) :
    decodeReal (.number x.literal) = .ok x.reread := by
  obtain ⟨number, hreading⟩ := Option.isSome_iff_exists.mp (Binary64.reading?_isSome hfinite)
  simp only [decodeReal, Binary64.reread, hreading]

section Integers

variable {low high : Int} {expected : String}

theorem decodeInteger_ofNat {k : Nat} (hfits : k < 2 ^ 64) (hlow : low ≤ k) (hhigh : k ≤ high) :
    decodeInteger low high expected (.ofNat k) = .ok k := by
  simp [decodeInteger, ofNat, NumberLiteral.reading?_ofNat hfits, hlow, hhigh]

theorem decodeInteger_ofInt {i : Int} (hfits : i.natAbs < 2 ^ 63) (hlow : low ≤ i) (hhigh : i ≤ high) :
    decodeInteger low high expected (.ofInt i) = .ok i := by
  simp only [decodeInteger, ofInt, NumberLiteral.reading?_ofInt hfits]
  rcases Int.lt_or_le i 0 with hneg | hpos
  · simp [hneg, hlow, hhigh]
  · have hvalue : (i.natAbs : Int) = i := by omega
    simp only [Int.not_lt.mpr hpos, if_false, hvalue]
    simp [hlow, hhigh]

end Integers

theorem decodeCount_ofNat {k : Nat} (hfits : k < 2 ^ 64) : decodeCount (.ofNat k) = .ok k := by
  have hrange : (k : Int) ≤ Int.pow 2 64 - 1 := by
    have : Int.pow 2 64 = 2 ^ 64 := rfl
    omega
  rw [decodeCount, decodeInteger_ofNat hfits (Int.natCast_nonneg k) hrange]
  rfl

theorem decodeExitCode_ofInt {i : Int} (hlow : -2 ^ 31 ≤ i) (hhigh : i < 2 ^ 31) :
    decodeExitCode (.ofInt i) = .ok i := by
  have hpower : Int.pow 2 31 = 2 ^ 31 := rfl
  exact decodeInteger_ofInt (by omega) (by omega) (by omega)

end Json

end CommitVerdict
