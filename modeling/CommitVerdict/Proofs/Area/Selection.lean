import CommitVerdict.Proofs.Area.PathBytes
import CommitVerdict.Proofs.Area.Stem

namespace CommitVerdict

open Bytes

namespace PathPattern

/-- Whether a pattern, apart from its mark, takes a path. -/
def Covers (p : PathPattern) (path : Bytes) : Prop :=
  p.everything = true ∨ p.text = path ∨ Glob.isMatch p.text path = true ∨
    (p.wild = false ∧ p.text ++ [47] <+: path)

theorem judge_eq_some_true_iff {p : PathPattern} {path : Bytes} :
    p.judge path = some true ↔
      (p.negated = false ∧ p.Covers path) ∨
        (p.negated = true ∧ ¬ p.Covers path ∧ Below (33 :: p.text) path) := by
  have hcovers : (p.everything || p.text == path || Glob.isMatch p.text path
      || (!p.wild && (p.text ++ [47]).isPrefixOf path)) = true ↔ p.Covers path := by
    simp only [Covers, Bool.or_eq_true, beq_iff_eq, Bool.and_eq_true, Bool.not_eq_true',
      List.isPrefixOf_iff_prefix, or_assoc]
  have hmarked : (33 :: p.text == path || (33 :: p.text ++ [47]).isPrefixOf path) = true ↔
      Below (33 :: p.text) path := by
    rw [Bool.or_eq_true, beq_iff_eq, List.isPrefixOf_iff_prefix, below_iff]
  unfold judge
  by_cases hcover : p.Covers path
  · rw [if_pos (hcovers.mpr hcover)]
    cases p.negated <;> simp [hcover]
  · rw [if_neg (mt hcovers.mp hcover)]
    cases hnegated : p.negated with
    | false => simp [hcover]
    | true =>
      simp only [Bool.true_and, ← hmarked, hcover, Bool.true_eq_false, false_and, not_false_eq_true,
        true_and, false_or, ite_eq_left_iff, reduceCtorEq, imp_false, not_not]

end PathPattern

namespace Pathspec

/-- How every path begins that a single text selects. -/
def stemOf (text : Bytes) : Bytes := unescape (beforeWildcard 0 text)

theorem selects_ofTexts_iff {s : String} {p : Path} :
    (ofTexts [s]).selects p = true ↔
      stemOf (Utf8.encode s) <+: p.bytes ∧
        ∀ pattern, PathPattern.parse? (Utf8.encode s) = some pattern →
          pattern.judge p.bytes = some true := by
  simp only [selects, ofTexts, List.map_cons, List.map_nil, List.foldl_nil, Bool.and_eq_true,
    List.isPrefixOf_iff_prefix]
  refine and_congr_right fun _ => ?_
  cases hparse : PathPattern.parse? (Utf8.encode s) with
  | none => simp [hparse]
  | some pattern =>
    cases hjudge : pattern.judge p.bytes <;>
      simp [hparse, Path.bytes] at hjudge ⊢ <;> simp [hjudge]

end Pathspec

end CommitVerdict
