import CommitVerdict.Git.CommitId
import Mathlib.Data.List.Induction
import Mathlib.Data.String.Basic

namespace CommitVerdict

theorem hexDigit?_digitChar : ∀ n < 16, hexDigit? (Nat.digitChar n) = some n := by
  decide

theorem utf8Size_digitChar : ∀ n < 16, (Nat.digitChar n).utf8Size = 1 := by
  decide

theorem length_hexDigits (width n : Nat) : (hexDigits width n).length = width := by
  induction width generalizing n with
  | zero => rfl
  | succ width ih => rw [hexDigits, List.length_append, ih, List.length_singleton]

theorem utf8Len_hexDigits (width n : Nat) : String.utf8Len (hexDigits width n) = width := by
  induction width generalizing n with
  | zero => rfl
  | succ width ih =>
    rw [hexDigits, String.utf8Len_append, ih, String.utf8Len_cons, String.utf8Len_nil,
      utf8Size_digitChar _ (Nat.mod_lt n (by decide))]

theorem hexValue?_concat {cs : List Char} {c : Char} {n digit : Nat} (hcs : hexValue? cs = some n)
    (hc : hexDigit? c = some digit) : hexValue? (cs ++ [c]) = some (n * 16 + digit) := by
  unfold hexValue? at hcs ⊢
  rw [List.foldlM_append, hcs]
  simp [hc]

theorem hexValue?_hexDigits (width n : Nat) : hexValue? (hexDigits width n) = some (n % 16 ^ width) := by
  induction width generalizing n with
  | zero => simp [hexDigits, hexValue?, Nat.mod_one]
  | succ width ih =>
    rw [hexDigits, hexValue?_concat (ih (n / 16)) (hexDigit?_digitChar _ (Nat.mod_lt n (by decide))),
      Nat.pow_succ', Nat.mod_mul, Nat.mul_comm 16, Nat.add_comm]

theorem toNat_lt_of_isHexDigit {c : Char} (hc : isHexDigit c = true) : c.toNat < 103 := by
  have hle : c ≤ 'f' := by
    simp only [isHexDigit, hexDigit?, Bool.and_eq_true, decide_eq_true_eq] at hc
    split_ifs at hc with hdecimal hlower hupper
    · exact le_trans hdecimal.2 (by decide)
    · exact hlower.2
    · exact le_trans hupper.2 (by decide)
    · cases hc
  exact Nat.lt_succ_of_le (UInt32.le_iff_toNat_le.mp hle)

/-- The signs of the digits, in both cases. -/
theorem isHexDigit_iff {c : Char} : isHexDigit c = true ↔ c ∈ "0123456789abcdefABCDEF".toList := by
  constructor
  · intro hc
    have hall : ∀ n < 103, isHexDigit (Char.ofNat n) = true →
        Char.ofNat n ∈ "0123456789abcdefABCDEF".toList := by decide +kernel
    rw [← Char.ofNat_toNat c] at hc ⊢
    exact hall _ (toNat_lt_of_isHexDigit (by rwa [Char.ofNat_toNat] at hc)) hc
  · -- as a check of the list: a statement on all characters would be decided by trying every one of them
    have hall : "0123456789abcdefABCDEF".toList.all isHexDigit = true := by decide
    exact List.all_eq_true.mp hall c

/-- A hexadecimal digit takes one byte, and in lower case it is the sign of its value. -/
theorem digit_of_hexDigit? {c : Char} {digit : Nat} (hc : hexDigit? c = some digit) :
    digit < 16 ∧ Nat.digitChar digit = c.toLower ∧ c.utf8Size = 1 := by
  have hall : ∀ n < 103, ∀ digit ∈ hexDigit? (Char.ofNat n),
      digit < 16 ∧ Nat.digitChar digit = (Char.ofNat n).toLower ∧ (Char.ofNat n).utf8Size = 1 := by decide +kernel
  have hdigit : isHexDigit c = true := by rw [isHexDigit, hc]; rfl
  have hsign := hall c.toNat (toNat_lt_of_isHexDigit hdigit) digit
  rw [Char.ofNat_toNat] at hsign
  exact hsign hc

/-- Digits take one byte each. -/
theorem utf8Len_of_digits {cs : List Char} (hdigits : ∀ c ∈ cs, isHexDigit c = true) :
    String.utf8Len cs = cs.length := by
  induction cs with
  | nil => rfl
  | cons c cs ih =>
    obtain ⟨hc, hcs⟩ := List.forall_mem_cons.mp hdigits
    obtain ⟨digit, hdigit⟩ := Option.isSome_iff_exists.mp hc
    rw [String.utf8Len_cons, ih hcs, (digit_of_hexDigit? hdigit).2.2, List.length_cons]

theorem hexValue?_concat_eq_some_iff {cs : List Char} {c : Char} {n : Nat} :
    hexValue? (cs ++ [c]) = some n ↔
      ∃ m digit, hexValue? cs = some m ∧ hexDigit? c = some digit ∧ m * 16 + digit = n := by
  simp [hexValue?, List.foldlM_append, Option.bind_eq_some_iff]

/-- Nothing but digits writes a number. -/
theorem exists_hexValue?_iff {cs : List Char} :
    (∃ n, hexValue? cs = some n) ↔ ∀ c ∈ cs, isHexDigit c = true := by
  induction cs using List.reverseRecOn with
  | nil => simp [hexValue?]
  | append_singleton cs c ih =>
    rw [List.forall_mem_append, List.forall_mem_singleton, ← ih, isHexDigit, Option.isSome_iff_exists]
    constructor
    · rintro ⟨_, hvalue⟩
      obtain ⟨m, digit, hm, hdigit, -⟩ := hexValue?_concat_eq_some_iff.mp hvalue
      exact ⟨⟨m, hm⟩, digit, hdigit⟩
    · rintro ⟨⟨m, hm⟩, digit, hdigit⟩
      exact ⟨_, hexValue?_concat hm hdigit⟩

/-- A number is written as it is read, in lower case. -/
theorem hexDigits_of_hexValue? {cs : List Char} {n : Nat} (hvalue : hexValue? cs = some n) :
    n < 16 ^ cs.length ∧ hexDigits cs.length n = cs.map Char.toLower := by
  induction cs using List.reverseRecOn generalizing n with
  | nil =>
    obtain rfl : 0 = n := Option.some.inj hvalue
    exact ⟨by decide, rfl⟩
  | append_singleton cs c ih =>
    obtain ⟨m, digit, hm, hdigit, rfl⟩ := hexValue?_concat_eq_some_iff.mp hvalue
    obtain ⟨hlt, hdigits⟩ := ih hm
    obtain ⟨hsmall, hsign, -⟩ := digit_of_hexDigit? hdigit
    have hhigh : (m * 16 + digit) / 16 = m := by omega
    have hlow : (m * 16 + digit) % 16 = digit := by omega
    rw [List.length_append, List.length_singleton]
    refine ⟨by rw [Nat.pow_succ]; omega, ?_⟩
    rw [hexDigits, hhigh, hlow, hdigits, hsign, List.map_append, List.map_singleton]

namespace CommitId

/-- The full form of an id has forty digits. -/
theorem length_hex (id : CommitId) : id.hex.toList.length = width := by
  rw [hex, String.toList_ofList, digits, length_hexDigits]

/-- An id is read back from its full form. -/
theorem parse_hex (id : CommitId) : parse id.hex = .ok id := by
  have hsize : id.hex.utf8ByteSize = width := by
    rw [hex, String.utf8ByteSize_ofList, digits, utf8Len_hexDigits]
  have hne : id.hex ≠ "" := by
    intro hempty
    have hlength := id.length_hex
    rw [hempty] at hlength
    cases hlength
  have hvalue : hexValue? id.hex.toList = some id.value.val := by
    rw [hex, String.toList_ofList, digits, hexValue?_hexDigits]
    exact congrArg some (Nat.mod_eq_of_lt id.value.isLt)
  have hid : ofNat id.value.val = id := congrArg CommitId.mk (Fin.ext (Nat.mod_eq_of_lt id.value.isLt))
  rw [parse, if_neg (by simpa using hne), if_neg (by simp [hsize]), hvalue, length_hex]
  simpa using hid

end CommitId

end CommitVerdict
