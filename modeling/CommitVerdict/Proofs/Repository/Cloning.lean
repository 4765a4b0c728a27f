import CommitVerdict.Proofs.Repository.Revision

namespace CommitVerdict

namespace Repository

variable {source : Repository} {name : String} {id : CommitId}

/-- The commit that a repository stands on. -/
def headCommit? (source : Repository) : Option CommitId :=
  match source.head with
  | .branch name => source.branches.find? name
  | .detached id => some id

/-- The full names that a fresh clone of a repository has, with their commits. -/
inductive ClonedReference (source : Repository) : String → CommitId → Prop
  | head {id : CommitId} : source.headCommit? = some id → ClonedReference source "HEAD" id
  | branch {name : String} {id : CommitId} : source.head = .branch name → source.branches.find? name = some id →
      ClonedReference source ("refs/heads/" ++ name) id
  | tag {name : String} {tag : Tag} : source.tags.find? (fun tag => tag.name == name) = some tag →
      ClonedReference source ("refs/tags/" ++ name) tag.target
  | remoteHead {name : String} {id : CommitId} : source.head = .branch name → source.branches.find? name = some id →
      ClonedReference source "refs/remotes/origin/HEAD" id
  | remote {name : String} {id : CommitId} : name ≠ "HEAD" → source.branches.find? name = some id →
      ClonedReference source ("refs/remotes/origin/" ++ name) id

theorem find?_history (hfind : source.branches.find? name = some id) :
    ∃ c, source.history.find? id = some c := by
  obtain ⟨branch, hmem, rfl⟩ := Branches.mem_of_find? hfind
  exact History.Holds.find? (source.branchesHeld branch hmem)

/-- The only branch of a clone is the one that its source stands on. -/
theorem branches_clone : (WorkingCopy.clone source).branches =
    match source.head with
    | .branch name => (source.branches.find? name).toList.map fun id => (name, id)
    | .detached _ => [] := by
  cases hhead : source.head with
  | detached other => cases hfind : source.history.find? other <;> simp [WorkingCopy.clone, hhead, hfind]
  | branch other =>
    cases hother : source.branches.find? other with
    | none => simp [WorkingCopy.clone, hhead, hother]
    | some commit =>
      obtain ⟨c, hc⟩ := find?_history hother
      simp [WorkingCopy.clone, hhead, hother, hc]

theorem find?_branches_clone : (WorkingCopy.clone source).branches.find? name = some id ↔
    source.head = .branch name ∧ source.branches.find? name = some id := by
  rw [branches_clone]
  cases hhead : source.head with
  | detached other => simp [Branches.find?]
  | branch other =>
    have hsingle (commit : CommitId) :
        Branches.find? [(other, commit)] name = some id ↔ other = name ∧ commit = id := by
      by_cases hname : other = name <;> simp [Branches.find?, hname]
    have hnone : Branches.find? [] name = none := rfl
    rw [Head.branch.injEq]
    cases hother : source.branches.find? other with
    | none =>
      simp only [hother, Option.toList_none, List.map_nil, hnone, reduceCtorEq, false_iff, not_and]
      rintro rfl
      simp [hother]
    | some commit =>
      simp only [hother, Option.toList_some, List.map_cons, List.map_nil, hsingle]
      apply and_congr_right
      rintro rfl
      rw [hother, Option.some.injEq]

theorem headCommit?_clone : (WorkingCopy.clone source).headCommit? = source.headCommit? := by
  have hclone : (WorkingCopy.clone source).head = source.head := rfl
  unfold WorkingCopy.headCommit? headCommit?
  rw [hclone]
  cases hhead : source.head with
  | detached id => rfl
  | branch name =>
    apply Option.ext
    intro id
    rw [find?_branches_clone, and_iff_right hhead]

theorem remoteHead_clone : ((WorkingCopy.clone source).remoteHead.bind
    (WorkingCopy.clone source).remoteBranches.find?) = some id ↔
      ∃ name, source.head = .branch name ∧ source.branches.find? name = some id := by
  unfold WorkingCopy.clone
  cases hhead : source.head with
  | detached other => simp
  | branch other => cases hother : source.branches.find? other <;> simp [hother]

end Repository

/-- Neither of two texts begins with the other one. -/
def Diverge (a b : String) : Prop := ¬a.toList <+: b.toList ∧ ¬b.toList <+: a.toList

instance (a b : String) : Decidable (Diverge a b) :=
  inferInstanceAs (Decidable (¬a.toList <+: b.toList ∧ ¬b.toList <+: a.toList))

theorem Diverge.append_ne_append {a b : String} (hdiverge : Diverge a b) (x y : String) :
    a ++ x ≠ b ++ y := by
  intro heq
  have hlists := congrArg String.toList heq
  rw [String.toList_append, String.toList_append] at hlists
  rcases List.prefix_or_prefix_of_prefix (List.prefix_append a.toList x.toList)
    (hlists ▸ List.prefix_append b.toList y.toList) with hbegins | hbegins
  · exact hdiverge.1 hbegins
  · exact hdiverge.2 hbegins

theorem Diverge.append_ne {a b : String} (hdiverge : Diverge a b) (x : String) : a ++ x ≠ b := by
  simpa using hdiverge.append_ne_append x ""

namespace Revision

theorem after?_eq_some_iff {start text rest : String} :
    after? start text = some rest ↔ text = start ++ rest := by
  unfold after?
  constructor
  · intro hafter
    split at hafter
    · rename_i hbegins
      obtain ⟨tail, htail⟩ := List.isPrefixOf_iff_prefix.mp hbegins
      obtain rfl := Option.some.inj hafter
      apply String.toList_inj.mp
      rw [String.toList_append, String.toList_ofList, ← htail, ← String.length_toList, List.drop_left]
    · cases hafter
  · rintro rfl
    simp [String.toList_append, ← String.length_toList]

end Revision

theorem Diverge.after?_eq_none {a b : String} (hdiverge : Diverge a b) (x : String) :
    Revision.after? b (a ++ x) = none := by
  cases hafter : Revision.after? b (a ++ x) with
  | none => rfl
  | some rest => exact absurd (Revision.after?_eq_some_iff.mp hafter) (hdiverge.append_ne_append x rest)

theorem append_cancel {a b x y : String} (heq : a ++ x = a ++ b ++ y) : x = b ++ y := by
  rwa [String.append_assoc, String.append_right_inj] at heq

namespace WorkingCopy

open Revision

variable {w : WorkingCopy}

theorem reference?_head : w.reference? "HEAD" = w.headCommit?.map fun id => ⟨id, false⟩ := by
  rw [reference?, if_pos rfl]

theorem reference?_remoteHead : w.reference? "refs/remotes/origin/HEAD" =
    (w.remoteHead.bind w.remoteBranches.find?).map fun id => ⟨id, false⟩ := by
  have hhead : "refs/remotes/origin/HEAD" ≠ "HEAD" := by decide
  rw [reference?, if_neg hhead, if_pos rfl]

theorem reference?_heads (name : String) :
    w.reference? ("refs/heads/" ++ name) = (w.branches.find? name).map fun id => ⟨id, false⟩ := by
  have hhead : "refs/heads/" ++ name ≠ "HEAD" := Diverge.append_ne (by decide) name
  have hremote : "refs/heads/" ++ name ≠ "refs/remotes/origin/HEAD" :=
    Diverge.append_ne (by decide) name
  have hself : after? "refs/heads/" ("refs/heads/" ++ name) = some name := after?_eq_some_iff.mpr rfl
  simp only [reference?, hhead, hremote, if_false, hself]

theorem reference?_tags (name : String) :
    w.reference? ("refs/tags/" ++ name) =
      (w.tags.find? fun tag => tag.name == name).map fun tag => ⟨tag.target, tag.annotated⟩ := by
  have hhead : "refs/tags/" ++ name ≠ "HEAD" := Diverge.append_ne (by decide) name
  have hremote : "refs/tags/" ++ name ≠ "refs/remotes/origin/HEAD" :=
    Diverge.append_ne (by decide) name
  have hheads : after? "refs/heads/" ("refs/tags/" ++ name) = none :=
    Diverge.after?_eq_none (by decide) name
  have hself : after? "refs/tags/" ("refs/tags/" ++ name) = some name := after?_eq_some_iff.mpr rfl
  simp only [reference?, hhead, hremote, if_false, hheads, hself]

theorem reference?_remotes {name : String} (hname : name ≠ "HEAD") :
    w.reference? ("refs/remotes/origin/" ++ name) =
      (w.remoteBranches.find? name).map fun id => ⟨id, false⟩ := by
  have hhead : "refs/remotes/origin/" ++ name ≠ "HEAD" := Diverge.append_ne (by decide) name
  have hremote : "refs/remotes/origin/" ++ name ≠ "refs/remotes/origin/HEAD" := by
    intro heq
    exact hname ((String.append_right_inj _).mp heq)
  have hheads : after? "refs/heads/" ("refs/remotes/origin/" ++ name) = none :=
    Diverge.after?_eq_none (by decide) name
  have htags : after? "refs/tags/" ("refs/remotes/origin/" ++ name) = none :=
    Diverge.after?_eq_none (by decide) name
  have hself : after? "refs/remotes/origin/" ("refs/remotes/origin/" ++ name) = some name :=
    after?_eq_some_iff.mpr rfl
  simp only [reference?, hhead, hremote, if_false, hheads, htags, hself]

/-- Nothing else is a full name. -/
theorem reference?_cases {full : String} {target : Target} (href : w.reference? full = some target) :
    full = "HEAD" ∨ (∃ name, full = "refs/heads/" ++ name) ∨ (∃ name, full = "refs/tags/" ++ name) ∨
      ∃ name, full = "refs/remotes/origin/" ++ name := by
  by_cases hhead : full = "HEAD"
  · exact .inl hhead
  by_cases hremote : full = "refs/remotes/origin/HEAD"
  · exact .inr (.inr (.inr ⟨"HEAD", hremote⟩))
  simp only [reference?, hhead, hremote, if_false] at href
  split at href
  · exact .inr (.inl ⟨_, after?_eq_some_iff.mp ‹_›⟩)
  · exact .inr (.inr (.inl ⟨_, after?_eq_some_iff.mp ‹_›⟩))
  · exact .inr (.inr (.inr ⟨_, after?_eq_some_iff.mp ‹_›⟩))
  · cases href

end WorkingCopy

namespace Repository

variable {source : Repository} {full : String} {id : CommitId}

/-- The commit under a full name in a fresh clone. -/
def cloned? (source : Repository) (full : String) : Option CommitId :=
  ((WorkingCopy.clone source).reference? full).map (·.commit)

theorem cloned?_eq_some_iff : source.cloned? full = some id ↔ source.ClonedReference full id := by
  unfold cloned?
  constructor
  · intro hfound
    obtain ⟨target, href, rfl⟩ := Option.map_eq_some_iff.mp hfound
    rcases WorkingCopy.reference?_cases href with rfl | ⟨name, rfl⟩ | ⟨name, rfl⟩ | ⟨name, rfl⟩
    · rw [WorkingCopy.reference?_head, headCommit?_clone] at href
      obtain ⟨id, hid, rfl⟩ := Option.map_eq_some_iff.mp href
      exact .head hid
    · rw [WorkingCopy.reference?_heads] at href
      obtain ⟨id, hid, rfl⟩ := Option.map_eq_some_iff.mp href
      obtain ⟨hhead, hbranch⟩ := find?_branches_clone.mp hid
      exact .branch hhead hbranch
    · rw [WorkingCopy.reference?_tags] at href
      obtain ⟨tag, htag, rfl⟩ := Option.map_eq_some_iff.mp href
      exact .tag htag
    · by_cases hname : name = "HEAD"
      · rw [hname] at href ⊢
        have hremote : "refs/remotes/origin/" ++ "HEAD" = "refs/remotes/origin/HEAD" := by decide
        rw [hremote, WorkingCopy.reference?_remoteHead] at href
        obtain ⟨id, hid, rfl⟩ := Option.map_eq_some_iff.mp href
        obtain ⟨branch, hhead, hbranch⟩ := remoteHead_clone.mp hid
        exact .remoteHead hhead hbranch
      · rw [WorkingCopy.reference?_remotes hname] at href
        obtain ⟨id, hid, rfl⟩ := Option.map_eq_some_iff.mp href
        exact .remote hname hid
  · intro hreference
    cases hreference with
    | head hid => rw [WorkingCopy.reference?_head, headCommit?_clone, hid]; rfl
    | branch hhead hbranch =>
      rw [WorkingCopy.reference?_heads, find?_branches_clone.mpr ⟨hhead, hbranch⟩]
      rfl
    | tag htag =>
      have htags : (WorkingCopy.clone source).tags = source.tags := rfl
      rw [WorkingCopy.reference?_tags, htags, htag]
      rfl
    | remoteHead hhead hbranch =>
      rw [WorkingCopy.reference?_remoteHead, remoteHead_clone.mpr ⟨_, hhead, hbranch⟩]
      rfl
    | remote hname hbranch =>
      have hbranches : (WorkingCopy.clone source).remoteBranches = source.branches := rfl
      rw [WorkingCopy.reference?_remotes hname, hbranches, hbranch]
      rfl

end Repository

end CommitVerdict
