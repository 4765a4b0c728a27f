import CommitVerdict.Proofs.Area.Components
import CommitVerdict.Text.Glob
import Mathlib.Data.Nat.Init

namespace CommitVerdict

namespace Glob

open Bytes

theorem mem_ends_iff {l left : Bytes} : left ∈ ends l ↔ left <:+ l := by
  induction l with
  | nil => simp [ends]
  | cons b l ih => rw [ends, List.mem_cons, ih, List.suffix_cons_iff]

/-- The bytes that neither are dots nor slashes and that a token takes at most. -/
def Token.weight : Token → Nat
  | .byte b => solid [b]
  | .any => 1
  | .star => 1
  | .set _ _ => 1
  | .never => 0

theorem solid_le_weight {token : Token} {b : UInt8} (haccepts : token.accepts b = true) :
    solid [b] ≤ token.weight := by
  have hone : solid [b] ≤ 1 := List.countP_le_length
  cases token with
  | byte c =>
    have hbyte : c = b := by simpa [Token.accepts] using haccepts
    rw [hbyte]
    exact Nat.le_refl _
  | any => exact hone
  | star => exact hone
  | set negated ranges => exact hone
  | never => simp [Token.accepts] at haccepts

theorem accepts_cons_iff {token : Token} (hstar : token ≠ .star) {rest : List Token} {text : Bytes} :
    accepts (token :: rest) text = true ↔
      ∃ b left, text = b :: left ∧ token.accepts b = true ∧ accepts rest left = true := by
  cases text with
  | nil => cases token <;> simp_all [accepts]
  | cons b left => cases token <;> simp_all [accepts]

theorem accepts_star_iff {rest : List Token} {text : Bytes} :
    accepts (.star :: rest) text = true ↔ ∃ left, left <:+ text ∧ accepts rest left = true := by
  simp only [accepts, List.any_eq_true, mem_ends_iff]

/-- What is matched either has one byte for each token, or can be made longer where a star stands. -/
theorem accepts_length_or_insert {tokens : List Token} {text : Bytes}
    (haccepts : accepts tokens text = true) :
    text.length = tokens.length ∨
      ∃ start rest, text = start ++ rest ∧ solid start < (tokens.map Token.weight).sum ∧
        ∀ middle, accepts tokens (start ++ (middle ++ rest)) = true := by
  induction tokens generalizing text with
  | nil =>
    left
    simpa [accepts] using haccepts
  | cons token tokens ih =>
    by_cases hstar : token = .star
    · subst hstar
      right
      obtain ⟨left, hleft, hrest⟩ := accepts_star_iff.mp haccepts
      refine ⟨[], text, rfl, ?_, fun middle => ?_⟩
      · rw [List.map_cons, List.sum_cons]
        exact Nat.lt_of_lt_of_le Nat.one_pos (Nat.le_add_right 1 _)
      · exact accepts_star_iff.mpr ⟨left, hleft.trans (List.suffix_append _ _), hrest⟩
    · obtain ⟨b, left, rfl, hb, hrest⟩ := (accepts_cons_iff hstar).mp haccepts
      rcases ih hrest with hlength | ⟨start, rest, rfl, hsolid, hinsert⟩
      · exact .inl (by rw [List.length_cons, List.length_cons, hlength])
      · refine .inr ⟨b :: start, rest, rfl, ?_, fun middle => ?_⟩
        · have hweight := solid_le_weight hb
          rw [← List.singleton_append, solid_append, List.map_cons, List.sum_cons]
          omega
        · exact (accepts_cons_iff hstar).mpr ⟨b, _, rfl, hb, hinsert middle⟩

/-- Reading a set goes forward in the pattern. -/
theorem readSet_suffix {fuel : Nat} {first : Bool} {before : Option UInt8} {cs left : Bytes}
    {ranges : List (UInt8 × UInt8)} (hread : readSet fuel first before cs = some (ranges, left)) :
    left <:+ cs := by
  induction fuel generalizing first before cs ranges with
  | zero => simp [readSet] at hread
  | succ fuel ih =>
    have hadd {added : List (UInt8 × UInt8)} {before : Option UInt8} {rest : Bytes}
        (hrest : rest <:+ cs)
        (hmore : ((readSet fuel false before rest).map fun read => (added ++ read.1, read.2)) =
          some (ranges, left)) : left <:+ cs := by
      obtain ⟨⟨more, left'⟩, hrec, heq⟩ := Option.map_eq_some_iff.mp hmore
      obtain rfl : left' = left := (Prod.mk.inj heq).2
      exact (ih hrec).trans hrest
    unfold readSet at hread
    simp only [] at hread
    split at hread
    · cases hread
    · split at hread
      · exact hadd (List.suffix_cons _ _) hread
      · obtain ⟨-, rfl⟩ := Prod.mk.inj (Option.some.inj hread)
        exact List.suffix_cons _ _
    · exact hadd (List.suffix_append [_, _] _) hread
    · rename_i rest
      split at hread
      · rename_i b after hlast hdrop
        have hafter : after <:+ rest :=
          (List.suffix_cons b after).trans (hdrop ▸ List.drop_suffix _ _)
        split at hread
        · exact hadd (hafter.trans (List.suffix_append [91, 58] _)) hread
        · cases hread
      · exact hadd (List.suffix_cons _ _) hread
    · split at hread
      · exact hadd (List.suffix_cons _ _) hread
      · split at hread
        · exact hadd (List.suffix_cons _ _) hread
        · split at hread
          · split at hread
            · cases hread
            · exact hadd (List.suffix_append [_, _, _] _) hread
          · exact hadd (List.suffix_append [_, _] _) hread
    · exact hadd (List.suffix_cons _ _) hread

private theorem bound_cons {token : Token} {tokens : List Token} {front rest : Bytes}
    (hweight : token.weight ≤ solid front) (hfront : front ≠ [])
    (hrest : (tokens.map Token.weight).sum ≤ solid rest ∧ tokens.length ≤ rest.length) :
    ((token :: tokens).map Token.weight).sum ≤ solid (front ++ rest) ∧
      (token :: tokens).length ≤ (front ++ rest).length := by
  have hlength := List.length_pos_iff.mpr hfront
  rw [solid_append, List.map_cons, List.sum_cons, List.length_cons, List.length_append]
  omega

/-- The tokens of a pattern weigh no more than its bytes, and are not more than these. -/
theorem parseFrom_bound (fuel : Nat) (pattern : Bytes) :
    ((parseFrom fuel pattern).map Token.weight).sum ≤ solid pattern ∧
      (parseFrom fuel pattern).length ≤ pattern.length := by
  fun_induction parseFrom fuel pattern with
  | case1 => simp
  | case2 => simp
  | case3 => simp [Token.weight]
  | case4 fuel b rest ih =>
    have hescaped : solid [92, b] = solid [92] + solid [b] := solid_append [92] [b]
    exact bound_cons (by rw [hescaped]; exact Nat.le_add_left _ _) (List.cons_ne_nil _ [b]) ih
  | case5 fuel rest ih => exact bound_cons (by decide) (List.cons_ne_nil 42 []) ih
  | case6 fuel rest ih => exact bound_cons (by decide) (List.cons_ne_nil 63 []) ih
  | case7 fuel rest negated members hmembers ranges left hread ih =>
    have hrest : members <:+ rest := by
      split at hmembers
      all_goals obtain ⟨-, rfl⟩ := Prod.mk.inj hmembers
      · exact List.suffix_cons _ _
      · exact List.suffix_cons _ _
      · exact List.suffix_refl _
    obtain ⟨skipped, rfl⟩ := (readSet_suffix hread).trans hrest
    have hset : solid (91 :: skipped) = 1 + solid skipped := solid_append [91] skipped
    exact bound_cons (by rw [hset]; exact Nat.le_add_right 1 _) (List.cons_ne_nil 91 skipped) ih
  | case8 => simp [Token.weight]
  | case9 fuel b rest _ _ _ _ _ ih => exact bound_cons (Nat.le_refl _) (List.cons_ne_nil b []) ih

/-- What a pattern matches is no longer than the pattern, or can be made longer behind a beginning that
has fewer solid bytes than the pattern. -/
theorem isMatch_length_or_insert {pattern text : Bytes} (hmatch : isMatch pattern text = true) :
    text.length ≤ pattern.length ∨
      ∃ start rest, text = start ++ rest ∧ solid start < solid pattern ∧
        ∀ middle, isMatch pattern (start ++ (middle ++ rest)) = true := by
  obtain ⟨hweight, hlength⟩ := parseFrom_bound pattern.length pattern
  rcases accepts_length_or_insert hmatch with heq | ⟨start, rest, htext, hsolid, hinsert⟩
  · exact .inl (heq ▸ hlength)
  · exact .inr ⟨start, rest, htext, Nat.lt_of_lt_of_le hsolid hweight, hinsert⟩

/-- Whether a byte stands for itself wherever it stands in a pattern. -/
def isLiteral (b : UInt8) : Bool := b != 92 && !isWildcard b

theorem accepts_map_byte_append {literal text : Bytes} {tokens : List Token} :
    accepts (literal.map .byte ++ tokens) text = true ↔
      ∃ rest, text = literal ++ rest ∧ accepts tokens rest = true := by
  induction literal generalizing text with
  | nil => simp
  | cons b literal ih =>
    rw [List.map_cons, List.cons_append, accepts_cons_iff (by simp)]
    constructor
    · rintro ⟨c, left, rfl, hc, hleft⟩
      obtain ⟨rest, rfl, hrest⟩ := ih.mp hleft
      have hbyte : b = c := by simpa [Token.accepts] using hc
      exact ⟨rest, by rw [hbyte, List.cons_append], hrest⟩
    · rintro ⟨rest, rfl, hrest⟩
      exact ⟨b, literal ++ rest, rfl, by simp [Token.accepts], ih.mpr ⟨rest, rfl, hrest⟩⟩

theorem parseFrom_literal {literal : Bytes} (hliteral : ∀ b ∈ literal, isLiteral b = true) (fuel : Nat)
    (rest : Bytes) :
    parseFrom (literal.length + fuel) (literal ++ rest) = literal.map .byte ++ parseFrom fuel rest := by
  induction literal with
  | nil => simp
  | cons b literal ih =>
    obtain ⟨hb, htail⟩ := List.forall_mem_cons.mp hliteral
    rw [List.length_cons, Nat.succ_add, List.cons_append, List.map_cons, List.cons_append, ← ih htail]
    simp only [isLiteral, isWildcard, Bool.and_eq_true, bne_iff_ne, Bool.not_eq_true',
      Bool.or_eq_false_iff, beq_eq_false_iff_ne] at hb
    obtain ⟨hback, ⟨hstar, hany⟩, hset⟩ := hb
    rw [parseFrom]
    all_goals simp_all

/-- Backslashes pair off, and one without a partner at the end matches nothing. -/
theorem parseFrom_backslashes {fuel n : Nat} (hfuel : n ≤ fuel) :
    parseFrom fuel (List.replicate n 92) =
      List.replicate (n / 2) (.byte 92) ++ if n % 2 = 1 then [.never] else [] := by
  induction n using Nat.twoStepInduction generalizing fuel with
  | zero => cases fuel <;> rfl
  | one =>
    obtain ⟨fuel, rfl⟩ := Nat.exists_eq_add_of_le' hfuel
    rfl
  | more n ih _ =>
    obtain ⟨fuel, rfl⟩ := Nat.exists_eq_add_of_le' (Nat.le_trans (Nat.le_add_left 1 (n + 1)) hfuel)
    have hstep : parseFrom (fuel + 1) (List.replicate (n + 2) 92) =
        .byte 92 :: parseFrom fuel (List.replicate n 92) := rfl
    rw [hstep, ih (by omega), Nat.add_div_right n Nat.two_pos, Nat.add_mod_right, List.replicate_succ,
      List.cons_append]

/-- A pattern of literal bytes and backslashes behind them matches at most one text, which has half of
these backslashes, and none at all if their number is odd. -/
theorem isMatch_literal_iff {literal text : Bytes} (hliteral : ∀ b ∈ literal, isLiteral b = true)
    (n : Nat) :
    isMatch (literal ++ List.replicate n 92) text = true ↔
      n % 2 = 0 ∧ text = literal ++ List.replicate (n / 2) 92 := by
  have hparse : parse (literal ++ List.replicate n 92) =
      (literal ++ List.replicate (n / 2) 92).map .byte ++ if n % 2 = 1 then [.never] else [] := by
    rw [parse, List.length_append, List.length_replicate, parseFrom_literal hliteral,
      parseFrom_backslashes (Nat.le_refl n), List.map_append, List.map_replicate, List.append_assoc]
  rw [isMatch, hparse, accepts_map_byte_append]
  constructor
  · rintro ⟨rest, rfl, hrest⟩
    split at hrest
    · cases rest <;> simp [accepts, Token.accepts] at hrest
    · have hempty : rest = [] := by simpa [accepts] using hrest
      exact ⟨by omega, by rw [hempty, List.append_nil]⟩
  · rintro ⟨heven, rfl⟩
    exact ⟨[], by rw [List.append_nil], by rw [if_neg (by omega)]; rfl⟩

end Glob

end CommitVerdict
