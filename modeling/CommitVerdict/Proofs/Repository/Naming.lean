import CommitVerdict.Proofs.Repository.Cloning

namespace CommitVerdict

namespace Revision

/-- A text in the name of a reference: it has none of the marks that end a name in a revision. -/
structure IsReferenceName (name : String) : Prop where
  ne_empty : name ≠ ""
  marks : ∀ c ∈ name.toList, c ≠ '^' ∧ c ≠ '~' ∧ c ≠ ':'
  braces : ¬['@', '\x7b'] <:+: name.toList

theorem splitBase_eq {cs : List Char} (hmarks : ∀ c ∈ cs, c ≠ '^' ∧ c ≠ '~' ∧ c ≠ ':')
    (hbraces : ¬['@', '\x7b'] <:+: cs) : splitBase cs = (cs, []) := by
  induction cs with
  | nil => rfl
  | cons c cs ih =>
    obtain ⟨hc, htail⟩ := List.forall_mem_cons.mp hmarks
    obtain ⟨hstart, hrest⟩ := not_or.mp (mt List.infix_cons_iff.mpr hbraces)
    have hbrace : ∀ rest, c = '@' → cs = '\x7b' :: rest → False := by
      rintro rest rfl rfl
      exact hstart ⟨rest, rfl⟩
    have hmark : (c == '^' || c == '~' || c == ':') = false := by simp [hc]
    rw [splitBase.eq_3 _ _ hbrace, hmark, ih htail hrest]
    rfl

theorem IsReferenceName.remote {name : String} (hname : IsReferenceName name) :
    IsReferenceName ("origin/" ++ name) where
  ne_empty := by simp
  marks := by
    intro c hc
    rw [String.toList_append] at hc
    rcases List.mem_append.mp hc with hc | hc
    · have horigin : ∀ d ∈ "origin/".toList, d ≠ '^' ∧ d ≠ '~' ∧ d ≠ ':' := by simp
      exact horigin c hc
    · exact hname.marks c hc
  braces := by
    have hbraces := hname.braces
    simp [String.toList_append, List.infix_cons_iff, List.cons_prefix_cons, hbraces]

/-- Such a name is a revision without any steps. A lone at sign stands for the head. -/
theorem parse?_of_isReferenceName {name : String} (hname : IsReferenceName name) :
    parse? name = some ⟨.name (if name = "@" then "HEAD" else name), []⟩ := by
  by_cases hat : name = "@"
  · rw [hat]
    rfl
  have hsplit := splitBase_eq hname.marks hname.braces
  have hempty : name.toList.isEmpty = false := by simpa using hname.ne_empty
  have hcolon (rest : List Char) : name.toList ≠ ':' :: rest := by
    intro hcs
    exact (hname.marks ':' (hcs ▸ List.mem_cons_self)).2.2 rfl
  have hlone : name.toList ≠ ['@'] := by
    intro hcs
    exact hat (String.toList_inj.mp hcs)
  rw [if_neg hat]
  unfold parse?
  simp only
  split
  · rename_i message hcs
    exact absurd hcs (hcolon _)
  · rename_i hcs
    exact absurd hcs hlone
  · simp [hsplit, hempty, readSteps]

end Revision

theorem findSome?_cons_eq_or {α β : Type} (f : α → Option β) (a : α) (l : List α) :
    (a :: l).findSome? f = (f a).or (l.findSome? f) := by
  rw [List.findSome?_cons]
  cases f a <;> rfl

namespace Repository

open Revision

variable {source : Repository} {name b : String} {id : CommitId}

/-- The only commit whose id the digits begin. -/
def only? (source : Repository) (digits : String) : Option CommitId :=
  ((WorkingCopy.clone source).abbreviated? digits.toList).map (·.commit)

/-- The commit that a name is the full id of. -/
def fullId? (source : Repository) (name : String) : Option CommitId :=
  if name.toList.all isHexDigit && name.toList.length == CommitId.width then source.only? name else none

/-- The commit that a name is the beginning of the id of. -/
def shortId? (source : Repository) (name : String) : Option CommitId :=
  if name.toList.all isHexDigit && 4 ≤ name.toList.length && name.toList.length < CommitId.width then
    source.only? name
  else none

/-- What a fresh clone takes a name for: an id, one of its references, or the beginning of an id. -/
theorem revision?_name : (WorkingCopy.clone source).revision? ⟨.name name, []⟩ =
    ((source.fullId? name).or ((places name).findSome? source.cloned?)).or (source.shortId? name) := by
  have hplaces : ((WorkingCopy.clone source).named? name).map (·.commit) =
      (places name).findSome? source.cloned? := by
    rw [WorkingCopy.named?, List.map_findSome?]
    rfl
  have hrevision : (WorkingCopy.clone source).revision? ⟨.name name, []⟩ =
      ((WorkingCopy.clone source).base? (.name name)).map (·.commit) := by
    simp only [WorkingCopy.revision?, List.foldlM_nil, Option.pure_def, Option.bind_eq_bind]
    cases (WorkingCopy.clone source).base? (.name name) <;> rfl
  rw [hrevision, ← hplaces]
  simp only [WorkingCopy.base?, Option.orElse_eq_or, Option.map_or, fullId?, shortId?, only?]
  congr 2
  · split <;> rfl
  · split <;> rfl

end Repository

end CommitVerdict
