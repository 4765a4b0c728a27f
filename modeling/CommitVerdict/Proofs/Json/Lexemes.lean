import CommitVerdict.Json.Printer
import CommitVerdict.Json.Reader
import CommitVerdict.Proofs.Text.Hex
import Mathlib.Data.List.Basic

namespace CommitVerdict

/-- What follows a run of digits is no digit. -/
def DigitsEnd (rest : List Char) : Prop := ∀ c ∈ rest.head?, c.isDigit = false

/-- What follows a number does not go on with it. -/
def NumberEnds (rest : List Char) : Prop := ∀ c ∈ rest.head?, c.isDigit = false ∧ c ∉ ['.', 'e', 'E']

section Digits

variable {rest : List Char}

theorem NumberEnds.digitsEnd (hends : NumberEnds rest) : DigitsEnd rest := fun c hc => (hends c hc).1

theorem DigitsEnd.takeWhile (hends : DigitsEnd rest) : rest.takeWhile Char.isDigit = [] := by
  cases rest with
  | nil => rfl
  | cons c rest => rw [List.takeWhile_cons_of_neg (by simp [hends c rfl])]

theorem DigitsEnd.dropWhile (hends : DigitsEnd rest) : rest.dropWhile Char.isDigit = rest := by
  cases rest with
  | nil => rfl
  | cons c rest => rw [List.dropWhile_cons_of_neg (by simp [hends c rfl])]

theorem Digits.leading_append (ds : Digits) (hends : DigitsEnd rest) :
    leading (ds.chars ++ rest) = ds := by
  have hchars : (ds.chars ++ rest).takeWhile Char.isDigit = ds.chars := by
    rw [List.takeWhile_append_of_pos ds.isDigit, hends.takeWhile, List.append_nil]
  cases ds
  simp only [leading, hchars]

theorem Digits.dropWhile_append (ds : Digits) (hends : DigitsEnd rest) :
    (ds.chars ++ rest).dropWhile Char.isDigit = rest := by
  rw [List.dropWhile_append_of_pos ds.isDigit, hends.dropWhile]

end Digits

/-- The digits of a number that is not zero do not begin with a zero. -/
theorem head?_toDigits_ne_zero {n : Nat} (hpos : 0 < n) : (Nat.toDigits 10 n).head? ≠ some '0' := by
  induction n using Nat.strongRecOn with
  | ind n ih =>
    rcases Nat.lt_or_ge n 10 with hlt | hge
    · rw [Nat.toDigits_of_lt_base hlt]
      simp [Nat.pos_iff_ne_zero.mp hpos]
    · rw [Nat.toDigits_of_base_le (by decide) hge, List.head?_append_of_ne_nil _ Nat.toDigits_ne_nil]
      exact ih (n / 10) (by omega) (by omega)

theorem toDigits_ne_leading_zero (n : Nat) (c : Char) (cs : List Char) :
    Nat.toDigits 10 n ≠ '0' :: c :: cs := by
  intro heq
  rcases Nat.eq_zero_or_pos n with rfl | hpos
  · cases heq
  · exact head?_toDigits_ne_zero hpos (by rw [heq]; rfl)

namespace Json

variable {rest : List Char}

theorem readFraction_append (ds : Digits) (hends : DigitsEnd rest) (hpoint : rest.head? ≠ some '.') :
    readFraction ((if ds.chars.isEmpty then [] else '.' :: ds.chars) ++ rest) = some (ds, rest) := by
  split
  · rename_i hempty
    obtain rfl : ds = .empty := by
      cases ds
      simpa [Digits.empty] using hempty
    rw [List.nil_append, readFraction.eq_def]
    split
    · simp at hpoint
    · rfl
  · rename_i hsome
    rw [List.cons_append, readFraction, ds.leading_append hends, ds.dropWhile_append hends]
    exact if_neg hsome

theorem readExponentDigits_append (negative : Bool) (n : Nat) (hends : DigitsEnd rest) :
    readExponentDigits negative (Nat.toDigits 10 n ++ rest) =
      some (some (if negative then -(n : Int) else n), rest) := by
  have hleading := (Digits.ofNat n).leading_append hends
  have hdrop := (Digits.ofNat n).dropWhile_append hends
  simp only [Digits.ofNat] at hleading hdrop
  simp only [readExponentDigits, hleading, hdrop, digitsValue, Nat.ofDigitChars_ten_toDigits]
  simp

theorem readExponent_append (e : Option Int) (hends : NumberEnds rest) :
    readExponent ((e.map NumberLiteral.exponentChars).getD [] ++ rest) = some (e, rest) := by
  cases e with
  | none =>
    cases rest with
    | nil => rfl
    | cons c rest =>
      have hletter := (hends c rfl).2
      simp only [List.mem_cons, List.not_mem_nil, or_false, not_or] at hletter
      simp [readExponent, hletter]
  | some e =>
    rcases Int.lt_or_le e 0 with hneg | hpos
    · have hchars : NumberLiteral.exponentChars e = 'e' :: '-' :: Nat.toDigits 10 e.natAbs := by
        rw [NumberLiteral.exponentChars, if_pos hneg]
      have hsize : -(e.natAbs : Int) = e := by omega
      rw [Option.map_some, Option.getD_some, hchars]
      exact (readExponentDigits_append true _ hends.digitsEnd).trans (by rw [if_pos rfl, hsize])
    · have hchars : NumberLiteral.exponentChars e = 'e' :: '+' :: Nat.toDigits 10 e.natAbs := by
        rw [NumberLiteral.exponentChars, if_neg (Int.not_lt.mpr hpos)]
      have hsize : (e.natAbs : Int) = e := by omega
      rw [Option.map_some, Option.getD_some, hchars]
      exact (readExponentDigits_append false _ hends.digitsEnd).trans (by rw [if_neg nofun, hsize])

theorem readUnsigned_append (n : NumberLiteral) (hends : NumberEnds rest) :
    readUnsigned n.negative
        (Nat.toDigits 10 n.whole
          ++ ((if n.fraction.chars.isEmpty then [] else '.' :: n.fraction.chars)
            ++ ((n.exponent.map NumberLiteral.exponentChars).getD [] ++ rest))) = some (n, rest) := by
  -- what follows the digits begins with a point, with the letter of an exponent, or is the rest
  have hexponent : DigitsEnd ((n.exponent.map NumberLiteral.exponentChars).getD [] ++ rest) ∧
      ((n.exponent.map NumberLiteral.exponentChars).getD [] ++ rest).head? ≠ some '.' := by
    cases n.exponent with
    | none => exact ⟨hends.digitsEnd, fun hpoint => absurd (hends '.' hpoint).2 (by decide)⟩
    | some e => exact ⟨by rintro c ⟨⟩; decide, by simp [NumberLiteral.exponentChars]⟩
  have hfraction : DigitsEnd ((if n.fraction.chars.isEmpty then [] else '.' :: n.fraction.chars)
      ++ ((n.exponent.map NumberLiteral.exponentChars).getD [] ++ rest)) := by
    split
    · exact hexponent.1
    · rintro c ⟨⟩
      decide
  have hleading := (Digits.ofNat n.whole).leading_append hfraction
  have hdrop := (Digits.ofNat n.whole).dropWhile_append hfraction
  rw [Digits.ofNat] at hleading hdrop
  rw [readUnsigned, hleading, hdrop]
  simp only [readFraction_append _ hexponent.1 hexponent.2, readExponent_append _ hends, bind,
    Option.bind, digitsValue, Nat.ofDigitChars_ten_toDigits]
  split
  · rename_i hnil
    exact absurd hnil Nat.toDigits_ne_nil
  · rename_i hzero
    exact absurd hzero (toDigits_ne_leading_zero _ _ _)
  · rfl

/-- A number is read back in the form that it was printed in. -/
theorem readNumber_append (n : NumberLiteral) (hends : NumberEnds rest) :
    readNumber (n.chars ++ rest) = some (n, rest) := by
  have hunsigned := readUnsigned_append n hends
  simp only [NumberLiteral.chars, List.append_assoc]
  cases hnegative : n.negative with
  | true =>
    rw [hnegative] at hunsigned
    exact hunsigned
  | false =>
    rw [hnegative] at hunsigned
    simp only [Bool.false_eq_true, if_false, List.nil_append]
    rw [readNumber.eq_def]
    split
    · rename_i hminus
      -- the first digit is no minus sign
      cases hdigits : Nat.toDigits 10 n.whole with
      | nil => exact absurd hdigits Nat.toDigits_ne_nil
      | cons d ds =>
        have hdigit : d.isDigit = true :=
          Nat.isDigit_of_mem_toDigits (by decide) (by decide) (hdigits ▸ List.mem_cons_self)
        rw [hdigits, List.cons_append, List.cons.injEq] at hminus
        rw [hminus.1] at hdigit
        cases hdigit
    · exact hunsigned

/-- The text of a number begins with a sign or a digit. -/
theorem chars_number (n : NumberLiteral) :
    ∃ c cs, n.chars = c :: cs ∧ (c = '-' ∨ c.isDigit = true) := by
  cases hnegative : n.negative with
  | true => exact ⟨'-', _, by simp only [NumberLiteral.chars, hnegative]; rfl, .inl rfl⟩
  | false =>
    cases hdigits : Nat.toDigits 10 n.whole with
    | nil => exact absurd hdigits Nat.toDigits_ne_nil
    | cons d ds =>
      refine ⟨d, _, by simp only [NumberLiteral.chars, hnegative, hdigits]; rfl, .inr ?_⟩
      exact Nat.isDigit_of_mem_toDigits (by decide) (by decide) (hdigits ▸ List.mem_cons_self)

/-- The reader puts a character in front of the rest of a string. -/
def putChar (c : Char) (read : List Char × List Char) : List Char × List Char := (c :: read.1, read.2)

theorem readString_plain {c : Char} (hquote : c ≠ '"') (hslash : c ≠ '\\') (hcontrol : ¬ c.toNat < 0x20) :
    readString none (c :: rest) = (readString none rest).map (putChar c) := by
  have hrest : (c == '\\' || decide (c.toNat < 0x20)) = false := by simp [hslash, hcontrol]
  rw [readString.eq_def]
  split
  · exact absurd (List.cons.inj ‹_›).1 hslash
  · exact absurd (List.cons.inj ‹_›).1 hslash
  · exact absurd (List.cons.inj ‹_›).1 hquote
  · rename_i hcons
    obtain ⟨rfl, rfl⟩ := List.cons.inj hcons
    rw [Option.isSome_none, Bool.false_or, hrest]
    rfl
  · exact absurd ‹_› (List.cons_ne_nil c rest)

theorem readString_control {a b c : Char} (hcode : hexQuad? '0' '0' a b = some c.toNat)
    (hcontrol : c.toNat < 0x20) :
    readString none ('\\' :: 'u' :: '0' :: '0' :: a :: b :: rest) =
      (readString none rest).map (putChar c) := by
  have hhigh : ¬ (0xD800 ≤ c.toNat ∧ c.toNat < 0xDC00) := by omega
  have hlow : ¬ (0xDC00 ≤ c.toNat ∧ c.toNat < 0xE000) := by omega
  rw [readString.eq_def]
  simp only [hcode, Bool.and_eq_true, decide_eq_true_eq, hhigh, hlow, if_false, Char.ofNat_toNat]
  rfl

/-- A character is read back as it was printed. -/
theorem readString_escapeChar (c : Char) :
    readString none (escapeChar c ++ rest) = (readString none rest).map (putChar c) := by
  unfold escapeChar
  split
  case h_8 hquote hslash _ _ _ _ _ =>
    split
    · rename_i hlow
      refine readString_control ?_ (by omega)
      simp [hexQuad?, hexValue?, hexDigit?_digitChar _ hlow, show hexDigit? '0' = some 0 from rfl]
    · split
      · rename_i hlow hcontrol
        refine readString_control ?_ hcontrol
        simp [hexQuad?, hexValue?, hexDigit?_digitChar (c.toNat - 0x10) (by omega),
          show hexDigit? '0' = some 0 from rfl, show hexDigit? '1' = some 1 from rfl]
        omega
      · rename_i hcontrol
        exact readString_plain hquote hslash hcontrol
  all_goals rfl

/-- A string is read back as it was printed. -/
theorem readString_append (s : List Char) :
    readString none (s.flatMap escapeChar ++ '"' :: rest) = some (s, rest) := by
  induction s with
  | nil => rfl
  | cons c s ih =>
    rw [List.flatMap_cons, List.append_assoc, readString_escapeChar, ih]
    rfl

theorem toNat_digitChar_ge : ∀ n < 16, 0x20 ≤ (Nat.digitChar n).toNat := by
  decide

/-- Nothing below the space stands in the text of a string. -/
theorem escapeChar_ge {c d : Char} (hmem : d ∈ escapeChar c) : 0x20 ≤ d.toNat := by
  have hall : ∀ cs : List Char, (cs.all fun d => 0x20 ≤ d.toNat) = true → d ∈ cs → 0x20 ≤ d.toNat :=
    fun cs hcs hd => of_decide_eq_true (List.all_eq_true.mp hcs d hd)
  unfold escapeChar at hmem
  split at hmem
  case h_8 =>
    split at hmem
    · rename_i hlow
      refine hall _ ?_ hmem
      simp [toNat_digitChar_ge _ hlow]
    · split at hmem
      · rename_i hlow hcontrol
        refine hall _ ?_ hmem
        simp [toNat_digitChar_ge (c.toNat - 0x10) (by omega)]
      · obtain rfl := List.mem_singleton.mp hmem
        omega
  all_goals exact hall _ rfl hmem

end Json

end CommitVerdict
