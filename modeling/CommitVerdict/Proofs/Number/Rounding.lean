import CommitVerdict.Proofs.Number.Interval
import Mathlib.Tactic.Ring

namespace CommitVerdict

theorem roundHalfEven_cases (num den : Nat) :
    (roundHalfEven num den = num / den ∧ 2 * (num % den) ≤ den) ∨
      (roundHalfEven num den = num / den + 1 ∧ den ≤ 2 * (num % den)) := by
  unfold roundHalfEven
  dsimp only
  split
  · exact .inl ⟨rfl, by omega⟩
  · split
    · exact .inr ⟨rfl, by omega⟩
    · rcases Nat.mod_two_eq_zero_or_one (num / den) with heven | hodd
      · exact .inl ⟨by omega, by omega⟩
      · exact .inr ⟨by omega, by omega⟩

/-- A rounded quotient is at most half of the divisor away. -/
theorem roundHalfEven_near (num : Nat) {den : Nat} (hden : 0 < den) :
    2 * num ≤ 2 * (roundHalfEven num den * den) + den ∧
      2 * (roundHalfEven num den * den) ≤ 2 * num + den := by
  have hdivision := Nat.div_add_mod' num den
  have hrest := Nat.mod_lt num hden
  rcases roundHalfEven_cases num den with ⟨hround, hhalf⟩ | ⟨hround, hhalf⟩
  · rw [hround]
    omega
  · have hsucc : (num / den + 1) * den = num / den * den + den := Nat.succ_mul _ _
    rw [hround, hsucc]
    omega

/-- A tie goes to an even number. -/
theorem roundHalfEven_odd (num : Nat) {den : Nat} (hden : 0 < den) (hodd : roundHalfEven num den % 2 = 1) :
    2 * num < 2 * (roundHalfEven num den * den) + den ∧ 2 * (roundHalfEven num den * den) < 2 * num + den := by
  have hdivision := Nat.div_add_mod' num den
  have hrest := Nat.mod_lt num hden
  have hsucc : (num / den + 1) * den = num / den * den + den := Nat.succ_mul _ _
  unfold roundHalfEven at hodd ⊢
  dsimp only at hodd ⊢
  split at hodd
  · rename_i hless
    rw [if_pos hless]
    omega
  · rename_i hmore
    rw [if_neg hmore]
    split at hodd
    · rename_i hmost
      rw [if_pos hmost, hsucc]
      omega
    · omega

namespace Binary64

variable {x : Binary64}

theorem unitDenominator_pos : 0 < unitDenominator := by
  decide +kernel

section Ordinal

variable {s r : Nat}

/-- A significand at a scale makes a double. If it has one binary digit too many, the scale is the next one. -/
theorem parts_of_ordinal (negative : Bool) (hr : r ≤ 9007199254740992) (hs : s = 0 ∨ 4503599627370496 ≤ r) :
    let z : Binary64 := ⟨negative, s * 4503599627370496 + r⟩
    (r < 9007199254740992 ∧ z.significand = r ∧ z.scale = s) ∨
      (r = 9007199254740992 ∧ z.significand = 4503599627370496 ∧ z.scale = s + 1) := by
  intro z
  have hz : z.ordinal = s * 4503599627370496 + r := rfl
  rcases z.ordinal_cases with ⟨hlt, hsig, hscale⟩ | ⟨k, r', hr', hordinal, hsig, hscale⟩ <;> omega

theorem magnitude_of_ordinal (negative : Bool) (hr : r ≤ 9007199254740992) (hs : s = 0 ∨ 4503599627370496 ≤ r) :
    (⟨negative, s * 4503599627370496 + r⟩ : Binary64).magnitude = r * 2 ^ s := by
  rw [magnitude_eq]
  rcases parts_of_ordinal negative hr hs with ⟨-, hsig, hscale⟩ | ⟨rfl, hsig, hscale⟩
  · rw [hsig, step_of_scale hscale]
  · rw [hsig, step_of_scale hscale, Nat.pow_succ]
    omega

/-- The interval reaches half a step to either side, except below the powers of two. -/
theorem ends_of_ordinal (negative : Bool) (hr : r ≤ 9007199254740992) (hs : s = 0 ∨ 4503599627370496 ≤ r) :
    let z : Binary64 := ⟨negative, s * 4503599627370496 + r⟩
    4 * (r * 2 ^ s) + 2 * 2 ^ s ≤ z.highEnd ∧
      (z.lowEnd ≤ 4 * (r * 2 ^ s) - 2 * 2 ^ s ∨
        s ≠ 0 ∧ r = 4503599627370496 ∧ z.lowEnd ≤ 4 * (r * 2 ^ s)) := by
  intro z
  have hmagnitude : z.magnitude = r * 2 ^ s := magnitude_of_ordinal negative hr hs
  rw [highEnd, lowEnd, hmagnitude, pow_fractionBits]
  rcases parts_of_ordinal negative hr hs with ⟨-, hsig, hscale⟩ | ⟨rfl, hsig, hscale⟩
  · rw [step_of_scale hscale, hsig]
    refine ⟨le_rfl, ?_⟩
    split
    · rename_i hpower
      simp only [Bool.and_eq_true, beq_iff_eq, bne_iff_ne] at hpower
      exact .inr ⟨hscale ▸ hpower.2, hpower.1, Nat.sub_le _ _⟩
    · exact .inl le_rfl
  · have hstep : z.step = 2 * 2 ^ s := by rw [step_of_scale hscale, Nat.pow_succ, Nat.mul_comm]
    rw [hstep, hsig, hscale]
    refine ⟨by omega, .inl ?_⟩
    simp

end Ordinal

/-- The scale at which a quotient has 53 binary digits in front of the point, or fewer if there is no lower
scale. -/
structure IsScale (scaled den s : Nat) : Prop where
  upper : scaled < 9007199254740992 * (den * 2 ^ s)
  lower : s = 0 ∨ 4503599627370496 * (den * 2 ^ s) ≤ scaled

/-- A quotient is rounded to a significand at its scale. -/
theorem exists_scale (negative : Bool) (num : Nat) {den : Nat} (hden : 0 < den) :
    ∃ s, IsScale (num * unitDenominator) den s ∧ (ofRatio negative num den).ordinal =
      min (s * 4503599627370496 + roundHalfEven (num * unitDenominator) (den * 2 ^ s)) infiniteOrdinal := by
  let scaled := num * unitDenominator
  let s := (scaled / den).log2 - 52
  refine ⟨s, ⟨?_, ?_⟩, rfl⟩
  · have hlog : scaled / den < 2 ^ (s + 53) :=
      Nat.lt_log2_self.trans_le (Nat.pow_le_pow_right (by decide) (by omega))
    calc scaled < 2 ^ (s + 53) * den := (Nat.div_lt_iff_lt_mul hden).mp hlog
      _ = 9007199254740992 * (den * 2 ^ s) := by ring
  · rcases Nat.eq_zero_or_pos s with hzero | hpos
    · exact .inl hzero
    · right
      have hne : scaled / den ≠ 0 := by
        intro hzero
        simp [s, hzero] at hpos
      have hlog : 2 ^ (s + 52) ≤ scaled / den :=
        (Nat.pow_le_pow_right (by decide) (by omega)).trans (Nat.log2_self_le hne)
      calc 4503599627370496 * (den * 2 ^ s) = 2 ^ (s + 52) * den := by ring
        _ ≤ scaled := (Nat.le_div_iff_mul_le hden).mp hlog

/-- The significand has 53 binary digits, or is the next power of two. -/
theorem IsScale.significand {scaled den s : Nat} (hscale : IsScale scaled den s) (hden : 0 < den) :
    roundHalfEven scaled (den * 2 ^ s) ≤ 9007199254740992 ∧
      (s = 0 ∨ 4503599627370496 ≤ roundHalfEven scaled (den * 2 ^ s)) := by
  obtain ⟨hupper, hlower⟩ := hscale
  have hunit : 0 < den * 2 ^ s := Nat.mul_pos hden (Nat.pow_pos (by decide))
  obtain ⟨hbelow, habove⟩ := roundHalfEven_near scaled hunit
  generalize roundHalfEven scaled (den * 2 ^ s) = r at *
  generalize den * 2 ^ s = unit at *
  constructor
  · by_contra hgt
    have hmul := Nat.mul_le_mul_right unit (Nat.not_le.mp hgt)
    omega
  · refine hlower.imp_right fun hlower => ?_
    by_contra hlt
    have hmul := Nat.mul_le_mul_right unit (Nat.not_le.mp hlt)
    rw [Nat.succ_mul] at hmul
    omega

/-- A quotient is rounded to a significand at a scale, with an error of half a unit at most. -/
theorem ofRatio_spec (negative : Bool) (num : Nat) {den : Nat} (hden : 0 < den) :
    ∃ s r, (ofRatio negative num den).ordinal = min (s * 4503599627370496 + r) infiniteOrdinal ∧
      r ≤ 9007199254740992 ∧ (s = 0 ∨ 4503599627370496 ≤ r) ∧
      9007199254740992 * (r * 2 ^ s * den) ≤
        9007199254740993 * (num * unitDenominator) + 4503599627370496 * den := by
  obtain ⟨s, hscale, hordinal⟩ := exists_scale negative num hden
  obtain ⟨hr, hs⟩ := hscale.significand hden
  refine ⟨s, _, hordinal, hr, hs, ?_⟩
  have hunit : 0 < den * 2 ^ s := Nat.mul_pos hden (Nat.pow_pos two_pos)
  obtain ⟨-, habove⟩ := roundHalfEven_near (num * unitDenominator) hunit
  generalize roundHalfEven (num * unitDenominator) (den * 2 ^ s) = r at *
  have hproduct : r * 2 ^ s * den = r * (den * 2 ^ s) := by ring
  rw [hproduct]
  rcases hscale.lower with rfl | hlower
  · have hunit : den * 2 ^ 0 = den := by rw [Nat.pow_zero, Nat.mul_one]
    omega
  · omega

section Covers

theorem covers_div_iff {num den : Nat} (hden : 0 < den) : x.Covers (num / den) ↔
    if x.isEven then
      x.lowEnd * den ≤ 4 * (num * unitDenominator) ∧ 4 * (num * unitDenominator) ≤ x.highEnd * den
    else x.lowEnd * den < 4 * (num * unitDenominator) ∧ 4 * (num * unitDenominator) < x.highEnd * den := by
  have hden : (0 : ℚ) < den := Nat.cast_pos.mpr hden
  have hquotient : 4 * (unitDenominator : ℚ) * (num / den) = 4 * (num * unitDenominator) / den := by ring
  rw [Covers, hquotient, le_div_iff₀ hden, div_le_iff₀ hden, lt_div_iff₀ hden, div_lt_iff₀ hden]
  norm_cast

/-- A quotient lies in the interval of the double that its significand makes at its scale. -/
theorem IsScale.covers {num den s : Nat} (hscale : IsScale (num * unitDenominator) den s) (hden : 0 < den)
    (negative : Bool) :
    (⟨negative, s * 4503599627370496 + roundHalfEven (num * unitDenominator) (den * 2 ^ s)⟩ : Binary64).Covers
      (num / den) := by
  obtain ⟨hr, hs⟩ := hscale.significand hden
  have hunit : 0 < den * 2 ^ s := Nat.mul_pos hden (Nat.pow_pos two_pos)
  have hnear := roundHalfEven_near (num * unitDenominator) hunit
  have hodd := roundHalfEven_odd (num * unitDenominator) hunit
  obtain ⟨hhigh, hlow⟩ := ends_of_ordinal negative hr hs
  generalize roundHalfEven (num * unitDenominator) (den * 2 ^ s) = r at *
  have heven : isEven ⟨negative, s * 4503599627370496 + r⟩ = true ↔ r % 2 = 0 := by
    rw [isEven_iff]
    dsimp only
    omega
  rw [covers_div_iff hden]
  generalize (⟨negative, s * 4503599627370496 + r⟩ : Binary64) = z at *
  have habove : 4 * (r * (den * 2 ^ s)) + 2 * (den * 2 ^ s) ≤ z.highEnd * den :=
    calc 4 * (r * (den * 2 ^ s)) + 2 * (den * 2 ^ s) = (4 * (r * 2 ^ s) + 2 * 2 ^ s) * den := by ring
      _ ≤ z.highEnd * den := Nat.mul_le_mul_right den hhigh
  have hbelow : z.lowEnd * den ≤ 4 * (r * (den * 2 ^ s)) - 2 * (den * 2 ^ s) ∨
      r = 4503599627370496 ∧ z.lowEnd * den ≤ 4 * (num * unitDenominator) := by
    rcases hlow with hlow | ⟨hne, hpower, hlow⟩
    · left
      calc z.lowEnd * den ≤ (4 * (r * 2 ^ s) - 2 * 2 ^ s) * den := Nat.mul_le_mul_right den hlow
        _ = 4 * (r * (den * 2 ^ s)) - 2 * (den * 2 ^ s) := by
          rw [Nat.sub_mul]
          ring_nf
    · right
      refine ⟨hpower, ?_⟩
      calc z.lowEnd * den ≤ 4 * (r * 2 ^ s) * den := Nat.mul_le_mul_right den hlow
        _ = 4 * (4503599627370496 * (den * 2 ^ s)) := by rw [hpower]; ring
        _ ≤ 4 * (num * unitDenominator) := Nat.mul_le_mul_left 4 (hscale.lower.resolve_left hne)
  split
  · omega
  · rename_i hz
    have hr_odd : r % 2 = 1 := by
      have := heven.not.mp hz
      omega
    have hstrict := hodd hr_odd
    have hpos : den * 2 ^ s ≤ r * (den * 2 ^ s) := Nat.le_mul_of_pos_left _ (by omega)
    omega

/-- A quotient is rounded to the double in whose interval it lies. -/
theorem ofRatio_eq_of_covers {num den : Nat} (hden : 0 < den) (hfinite : x.isFinite = true)
    (hcovers : x.Covers (num / den)) : ofRatio x.negative num den = x := by
  obtain ⟨s, hscale, hordinal⟩ := exists_scale x.negative num hden
  have hsame := (hscale.covers hden x.negative).ordinal_eq hcovers
  dsimp only at hsame
  rw [isFinite, decide_eq_true_eq] at hfinite
  rw [hsame, Nat.min_eq_left hfinite.le] at hordinal
  have hparts : ofRatio x.negative num den = ⟨x.negative, (ofRatio x.negative num den).ordinal⟩ := rfl
  rw [hparts, hordinal]

end Covers

theorem roundHalfEven_mul (k : Nat) {den : Nat} (hden : 0 < den) : roundHalfEven (k * den) den = k := by
  rw [roundHalfEven, Nat.mul_mod_left, Nat.mul_div_cancel k hden]
  simp [hden]

/-- A whole number below `2 ^ 53` is a double. -/
theorem magnitude_ofNat {n : Nat} (hsmall : n < 9007199254740992) :
    (ofNat n).magnitude = n * unitDenominator := by
  obtain ⟨s, hscale, hordinal⟩ := exists_scale false n Nat.one_pos
  obtain ⟨hr, hs⟩ := hscale.significand Nat.one_pos
  have hunit : unitDenominator = 2 ^ 1074 := rfl
  have hle : s ≤ 1074 := by
    by_contra hgt
    have hlower := hscale.lower.resolve_left (by omega)
    have hlarge : 2 * 2 ^ 1074 ≤ 2 ^ s := by
      rw [← Nat.pow_succ']
      exact Nat.pow_le_pow_right two_pos (by omega)
    have hmul := Nat.mul_lt_mul_of_pos_right hsmall unitDenominator_pos
    rw [hunit] at hlower hmul
    omega
  have hexact : n * unitDenominator = n * 2 ^ (1074 - s) * (1 * 2 ^ s) := by
    rw [hunit, Nat.one_mul, Nat.mul_assoc, ← Nat.pow_add, Nat.sub_add_cancel hle]
  rw [hexact, roundHalfEven_mul _ (by simp)] at hordinal hr hs
  have hinside : s * 4503599627370496 + n * 2 ^ (1074 - s) ≤ infiniteOrdinal := by
    have : infiniteOrdinal = 9218868437227405312 := rfl
    omega
  rw [Nat.min_eq_left hinside] at hordinal
  have hparts : ofNat n = ⟨false, (ofNat n).ordinal⟩ := rfl
  rw [hparts, ofNat, hordinal, magnitude_of_ordinal false hr hs, hexact, Nat.one_mul]

theorem magnitude_ofRatio_le (negative : Bool) (num : Nat) {den : Nat} (hden : 0 < den) :
    9007199254740992 * ((ofRatio negative num den).magnitude * den) ≤
      9007199254740993 * (num * unitDenominator) + 4503599627370496 * den := by
  obtain ⟨s, r, hordinal, hr, hs, herror⟩ := ofRatio_spec negative num hden
  have hmagnitude : (⟨negative, s * 4503599627370496 + r⟩ : Binary64).magnitude = r * 2 ^ s :=
    magnitude_of_ordinal negative hr hs
  refine le_trans (Nat.mul_le_mul_left _ (Nat.mul_le_mul_right _ ?_)) herror
  rw [← hmagnitude]
  exact magnitude_le_magnitude (hordinal ▸ Nat.min_le_left _ _)

/-- A quotient is finite as a double unless it is past the greatest one, rounding errors included. -/
theorem isFinite_ofRatio (negative : Bool) (num : Nat) {den : Nat} (hden : 0 < den)
    (hsmall : 9007199254740993 * (num * unitDenominator) + 4503599627370496 * den <
      9007199254740992 * (9007199254740992 * 2 ^ 2045 * den)) :
    (ofRatio negative num den).isFinite = true := by
  obtain ⟨s, r, hordinal, hr, hs, herror⟩ := ofRatio_spec negative num hden
  rw [isFinite, decide_eq_true_eq, hordinal]
  by_contra hinfinite
  have hgreat : 2045 * 4503599627370496 + 9007199254740992 ≤ s * 4503599627370496 + r := by
    have : infiniteOrdinal = 2045 * 4503599627370496 + 9007199254740992 := rfl
    omega
  have hmagnitude := magnitude_le_magnitude (x := ⟨negative, 2045 * 4503599627370496 + 9007199254740992⟩)
    (y := ⟨negative, s * 4503599627370496 + r⟩) hgreat
  rw [magnitude_of_ordinal negative (by decide) (.inr (by decide)),
    magnitude_of_ordinal negative hr hs] at hmagnitude
  have hmul := Nat.mul_le_mul_left 9007199254740992 (Nat.mul_le_mul_right den hmagnitude)
  exact Nat.not_lt.mpr (hmul.trans herror) hsmall

theorem magnitude_ofNat_le {n : Nat} (hpos : 0 < n) :
    9007199254740992 * (ofNat n).magnitude ≤ 9007199254740994 * (n * unitDenominator) := by
  have hle := magnitude_ofRatio_le false n Nat.one_pos
  have hunit : 4503599627370496 ≤ n * unitDenominator := by
    have hbig : 4503599627370496 ≤ unitDenominator := by decide +kernel
    exact hbig.trans (Nat.le_mul_of_pos_left _ hpos)
  rw [Nat.mul_one] at hle
  rw [ofNat]
  omega

/-- The product of two whole numbers is finite as a double unless it comes close to the greatest one. -/
theorem isFinite_mul_ofNat {m n : Nat} (hm : 0 < m) (hn : 0 < n)
    (hsmall : 4 * (m * n * unitDenominator) ≤ (36028797018963968 - 22) * 2 ^ 2045) :
    ((ofNat m).mul (ofNat n)).isFinite = true := by
  have hmle := magnitude_ofNat_le hm
  have hnle := magnitude_ofNat_le hn
  have hbig : 4 ≤ 2 ^ 2045 := by decide +kernel
  have hunit := unitDenominator_pos
  unfold mul
  refine isFinite_ofRatio _ _ (Nat.mul_pos hunit hunit) ?_
  generalize (ofNat m).magnitude = a at *
  generalize (ofNat n).magnitude = b at *
  generalize unitDenominator = u at *
  generalize 2 ^ 2045 = t at *
  -- each of the three roundings adds less than two units in the last place
  have hproduct : 9007199254740992 * 9007199254740992 * (a * b * u) ≤
      9007199254740994 * 9007199254740994 * (m * n * u * (u * u)) := by
    calc 9007199254740992 * 9007199254740992 * (a * b * u)
        = 9007199254740992 * a * (9007199254740992 * b) * u := by ring
      _ ≤ 9007199254740994 * (m * u) * (9007199254740994 * (n * u)) * u :=
          Nat.mul_le_mul_right u (Nat.mul_le_mul hmle hnle)
      _ = 9007199254740994 * 9007199254740994 * (m * n * u * (u * u)) := by ring
  have hbound : 4 * (m * n * u * (u * u)) ≤ (36028797018963968 - 22) * (t * (u * u)) := by
    calc 4 * (m * n * u * (u * u)) = 4 * (m * n * u) * (u * u) := by ring
      _ ≤ (36028797018963968 - 22) * t * (u * u) := Nat.mul_le_mul_right _ hsmall
      _ = (36028797018963968 - 22) * (t * (u * u)) := by ring
  have hroom : 4 * (u * u) ≤ t * (u * u) := Nat.mul_le_mul_right _ hbig
  have hsquare : 0 < u * u := Nat.mul_pos hunit hunit
  have hgoal : 9007199254740992 * (9007199254740992 * t * (u * u)) =
      9007199254740992 * 9007199254740992 * (t * (u * u)) := by ring
  rw [hgoal]
  generalize m * n * u * (u * u) = p at *
  generalize a * b * u = q at *
  generalize t * (u * u) = w at *
  generalize u * u = v at *
  omega

end Binary64

end CommitVerdict
