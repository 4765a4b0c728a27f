import CommitVerdict.Text.Hex
import Mathlib.Algebra.Ring.Nat
import Mathlib.Data.List.Induction
import Mathlib.Tactic.Tauto

namespace CommitVerdict

variable {α : Type}

/-- The low `width` places of a number to a base, the highest first, each shown by the sign of its digit. -/
def positional (base : Nat) (sign : Nat → α) : Nat → Nat → List α
  | 0, _ => []
  | width + 1, n => positional base sign width (n / base) ++ [sign (n % base)]

theorem hexDigits_eq_positional (width n : Nat) : hexDigits width n = positional 16 Nat.digitChar width n := by
  induction width generalizing n with
  | zero => rfl
  | succ width ih => rw [hexDigits, positional, ih]

section Rows

variable {base : Nat} {sign : Nat → α}

theorem length_positional (width n : Nat) : (positional base sign width n).length = width := by
  induction width generalizing n with
  | zero => rfl
  | succ width ih => rw [positional, List.length_append, ih, List.length_singleton]

/-- A number that is multiplied by a power of the base gets as many zeros. -/
theorem positional_mul_pow (hbase : 0 < base) (width zeros n : Nat) :
    positional base sign (width + zeros) (n * base ^ zeros) =
      positional base sign width n ++ List.replicate zeros (sign 0) := by
  induction zeros with
  | zero => simp
  | succ zeros ih =>
    have hhigh : n * base ^ (zeros + 1) / base = n * base ^ zeros := by
      rw [Nat.pow_succ, ← Nat.mul_assoc, Nat.mul_div_cancel _ hbase]
    have hlow : n * base ^ (zeros + 1) % base = 0 := by
      rw [Nat.pow_succ, ← Nat.mul_assoc, Nat.mul_mod_left]
    rw [← Nat.add_assoc, positional, hhigh, hlow, ih, List.append_assoc, List.replicate_succ']

/-- Two places to a base are one place to its square. -/
theorem positional_mul_self {β : Type} {pair : β → List α} {sign' : Nat → β}
    (hpair : ∀ i < base * base, pair (sign' i) = [sign (i / base), sign (i % base)]) (hbase : 0 < base)
    (width n : Nat) :
    positional base sign (2 * width) n = (positional (base * base) sign' width n).flatMap pair := by
  induction width generalizing n with
  | zero => rfl
  | succ width ih =>
    have hhigh : n % (base * base) / base = n / base % base := Nat.mod_mul_right_div_self n base base
    have hlow : n % (base * base) % base = n % base := Nat.mod_mul_left_mod n base base
    rw [positional, List.flatMap_append, ← ih, List.flatMap_singleton,
      hpair _ (Nat.mod_lt n (Nat.mul_pos hbase hbase)), hhigh, hlow, ← Nat.div_div_eq_div_mul]
    change positional base sign (2 * width + 2) n = _
    rw [positional, positional, List.append_assoc]
    rfl

/-- Every row of signs writes a number. -/
theorem exists_positional (hbase : 0 < base) {row : List α} (hrow : ∀ x ∈ row, ∃ i < base, sign i = x) :
    ∃ n < base ^ row.length, positional base sign row.length n = row := by
  induction row using List.reverseRecOn with
  | nil => exact ⟨0, Nat.one_pos, rfl⟩
  | append_singleton row x ih =>
    rw [List.forall_mem_append, List.forall_mem_singleton] at hrow
    obtain ⟨n, hn, heq⟩ := ih hrow.1
    obtain ⟨i, hi, rfl⟩ := hrow.2
    have hhigh : (base * n + i) / base = n := by
      rw [Nat.mul_add_div hbase, Nat.div_eq_of_lt hi, Nat.add_zero]
    have hlow : (base * n + i) % base = i := by rw [Nat.mul_add_mod, Nat.mod_eq_of_lt hi]
    rw [List.length_append, List.length_singleton]
    refine ⟨base * n + i, ?_, by rw [positional, hhigh, hlow, heq]⟩
    calc
      base * n + i < base * (n + 1) := by rw [Nat.mul_add, Nat.mul_one]; omega
      _ ≤ base * base ^ row.length := Nat.mul_le_mul_left base hn
      _ = base ^ (row.length + 1) := (Nat.pow_succ').symm

end Rows

section Order

variable [LT α]

/-- Rows of one length are compared by their last items only if the items before are the same. -/
theorem append_singleton_lt_iff {xs ys : List α} (hlength : xs.length = ys.length) {a b : α} :
    xs ++ [a] < ys ++ [b] ↔ xs < ys ∨ xs = ys ∧ a < b := by
  induction xs generalizing ys with
  | nil =>
    obtain rfl := List.length_eq_zero_iff.mp hlength.symm
    simp [List.cons_lt_cons_iff]
  | cons x xs ih =>
    obtain _ | ⟨y, ys⟩ := ys
    · cases hlength
    · rw [List.cons_append, List.cons_append, List.cons_lt_cons_iff, List.cons_lt_cons_iff, List.cons.injEq,
        ih (Nat.succ.inj hlength)]
      tauto

/-- The signs of the digits to a base are in the order of the digits. -/
def InOrder (base : Nat) (sign : Nat → α) : Prop :=
  ∀ i < base, ∀ j < base, sign i < sign j ↔ i < j

namespace InOrder

variable {base width : Nat} {sign : Nat → α} {m n : Nat} [Std.Irrefl (α := α) (· < ·)] (hsign : InOrder base sign)

include hsign

theorem sign_inj {i j : Nat} (hi : i < base) (hj : j < base) : sign i = sign j ↔ i = j := by
  refine ⟨fun heq => ?_, congrArg sign⟩
  have hirrefl : ¬sign j < sign j := Std.Irrefl.irrefl (sign j)
  have hij := hsign i hi j hj
  have hji := hsign j hj i hi
  rw [heq] at hij hji
  have hnot := mt hij.mpr hirrefl
  have hnot' := mt hji.mpr hirrefl
  omega

theorem positional_inj (hm : m < base ^ width) (hn : n < base ^ width) :
    positional base sign width m = positional base sign width n ↔ m = n := by
  refine ⟨fun heq => ?_, congrArg _⟩
  induction width generalizing m n with
  | zero => rw [Nat.lt_one_iff.mp hm, Nat.lt_one_iff.mp hn]
  | succ width ih =>
    have hbase : 0 < base := Nat.pos_of_ne_zero (by rintro rfl; simp at hm)
    rw [Nat.pow_succ, Nat.mul_comm] at hm hn
    obtain ⟨hhigh, hlow⟩ := List.append_inj' heq rfl
    have hdiv := ih (Nat.div_lt_of_lt_mul hm) (Nat.div_lt_of_lt_mul hn) hhigh
    have hmod := (hsign.sign_inj (Nat.mod_lt m hbase) (Nat.mod_lt n hbase)).mp (List.singleton_inj.mp hlow)
    rw [← Nat.div_add_mod m base, ← Nat.div_add_mod n base, hdiv, hmod]

/-- Numbers are compared as the rows of their signs are. -/
theorem positional_lt_iff (hm : m < base ^ width) (hn : n < base ^ width) :
    positional base sign width m < positional base sign width n ↔ m < n := by
  induction width generalizing m n with
  | zero =>
    rw [Nat.lt_one_iff.mp hm, Nat.lt_one_iff.mp hn]
    simp [positional]
  | succ width ih =>
    have hbase : 0 < base := Nat.pos_of_ne_zero (by rintro rfl; simp at hm)
    rw [Nat.pow_succ, Nat.mul_comm] at hm hn
    have hm' := Nat.div_lt_of_lt_mul hm
    have hn' := Nat.div_lt_of_lt_mul hn
    rw [positional, positional, append_singleton_lt_iff (by rw [length_positional, length_positional]), ih hm' hn',
      hsign.positional_inj hm' hn', hsign _ (Nat.mod_lt m hbase) _ (Nat.mod_lt n hbase)]
    rcases Nat.lt_trichotomy (m / base) (n / base) with hless | hsame | hmore
    · exact iff_of_true (.inl hless) (Nat.lt_of_div_lt_div hless)
    · have hm := Nat.div_add_mod m base
      have hn := Nat.div_add_mod n base
      rw [hsame] at hm
      omega
    · have hmore' := Nat.lt_of_div_lt_div hmore
      omega

end InOrder

end Order

end CommitVerdict
