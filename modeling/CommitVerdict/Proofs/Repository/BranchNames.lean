import CommitVerdict.Proofs.Differential.Reconstruction
import CommitVerdict.Proofs.Repository.Naming

namespace CommitVerdict

namespace Sample

theorem holds_forked : ∀ branch ∈ [("main", root.id), ("origin", feature.id), ("topic", feature.id)],
    history.Holds branch.2 := by
  decide

/-- A repository that stands on one commit, with two branches on another one. -/
def forked : Repository where
  history := history
  head := .branch "main"
  branches := [("main", root.id), ("origin", feature.id), ("topic", feature.id)]
  tags := []
  headHeld := repository.headHeld
  branchesHeld := holds_forked
  tagsHeld := repository.tagsHeld

end Sample

namespace Repository

open Revision

variable {source : Repository} {name b : String} {id : CommitId}

/-- The look-ups that come before the branch of the source, in order, with what they find. -/
def captures (source : Repository) (b : String) : List (Option CommitId) :=
  let name := if b = "@" then "HEAD" else b
  [source.fullId? name, source.cloned? name, source.cloned? ("refs/" ++ name),
    source.cloned? ("refs/tags/" ++ name)] ++
  if source.head = .branch b then []
  else
    [source.cloned? ("refs/remotes/" ++ name), source.cloned? ("refs/remotes/" ++ name ++ "/HEAD"),
      source.shortId? name, source.cloned? ("refs/tags/origin/" ++ b),
      source.cloned? ("refs/heads/origin/" ++ b)] ++
    if b = "HEAD" then [source.cloned? "refs/remotes/origin/HEAD/HEAD"] else []

/-- The commit that a name is taken for before it is looked up among the branches of the source. -/
def capture? (source : Repository) (b : String) : Option CommitId :=
  (source.captures b).findSome? fun found => found

theorem cloned?_eq_none {full : String} (hhead : full ≠ "HEAD") (hheads : ∀ name, full ≠ "refs/heads/" ++ name)
    (htags : ∀ name, full ≠ "refs/tags/" ++ name) (hremotes : ∀ name, full ≠ "refs/remotes/origin/" ++ name) :
    source.cloned? full = none := by
  cases href : (WorkingCopy.clone source).reference? full with
  | none => rw [cloned?, href]; rfl
  | some target =>
    rcases WorkingCopy.reference?_cases href with h | ⟨name, h⟩ | ⟨name, h⟩ | ⟨name, h⟩
    · exact absurd h hhead
    · exact absurd h (hheads name)
    · exact absurd h (htags name)
    · exact absurd h (hremotes name)

/-- The full names that begin otherwise than all that a clone has are those of nothing. -/
theorem cloned?_append_eq_none {start : String}
    (hstart : ∀ known ∈ ["HEAD", "refs/heads/", "refs/tags/", "refs/remotes/origin/"], Diverge start known)
    (rest : String) : source.cloned? (start ++ rest) = none :=
  cloned?_eq_none ((hstart "HEAD" (by decide)).append_ne rest)
    ((hstart "refs/heads/" (by decide)).append_ne_append rest)
    ((hstart "refs/tags/" (by decide)).append_ne_append rest)
    ((hstart "refs/remotes/origin/" (by decide)).append_ne_append rest)

theorem cloned?_head : source.cloned? "HEAD" = source.headCommit? := by
  apply Option.ext
  intro id
  rw [cloned?, WorkingCopy.reference?_head, headCommit?_clone, Option.map_map]
  simp

theorem cloned?_heads : source.cloned? ("refs/heads/" ++ name) = some id ↔
    source.head = .branch name ∧ source.branches.find? name = some id := by
  rw [cloned?, WorkingCopy.reference?_heads, Option.map_map, ← find?_branches_clone]
  simp

theorem cloned?_remoteHead : source.cloned? "refs/remotes/origin/HEAD" = some id ↔
    ∃ name, source.head = .branch name ∧ source.branches.find? name = some id := by
  have hcommit : ((fun target : Target => target.commit) ∘ fun other => ⟨other, false⟩) =
      fun other => other := rfl
  rw [cloned?, WorkingCopy.reference?_remoteHead, Option.map_map, hcommit, Option.map_id',
    ← remoteHead_clone]

theorem headCommit?_of_branch (hhead : source.head = .branch name) :
    source.headCommit? = source.branches.find? name := by
  rw [headCommit?, hhead]

theorem cloned?_heads_of_not_on (hoff : source.head ≠ .branch name) :
    source.cloned? ("refs/heads/" ++ name) = none :=
  Option.eq_none_iff_forall_ne_some.mpr fun _ hfound => hoff (cloned?_heads.mp hfound).1

/-- Without a commit to stand on, a clone has no branch of its own. -/
theorem cloned?_heads_of_no_head (hhead : source.cloned? "HEAD" = none) :
    source.cloned? ("refs/heads/" ++ name) = none := by
  apply Option.eq_none_iff_forall_ne_some.mpr
  intro id hfound
  obtain ⟨hon, hfind⟩ := cloned?_heads.mp hfound
  rw [cloned?_head, headCommit?_of_branch hon, hfind] at hhead
  cases hhead

theorem cloned?_remoteHead_of_no_head (hhead : source.cloned? "HEAD" = none) :
    source.cloned? "refs/remotes/origin/HEAD" = none := by
  apply Option.eq_none_iff_forall_ne_some.mpr
  intro id hfound
  obtain ⟨branch, hon, hfind⟩ := cloned?_remoteHead.mp hfound
  rw [cloned?_head, headCommit?_of_branch hon, hfind] at hhead
  cases hhead

/-- The branch that a clone stands on is found as its own branch, if its name is not taken for the head. -/
theorem cloned?_heads_of_on (hbranch : source.branches.find? b = some id) (hon : source.head = .branch b)
    (hname : (if b = "@" then "HEAD" else b) = name) (hself : source.cloned? name = none) :
    b ≠ "HEAD" ∧ source.cloned? ("refs/heads/" ++ name) = some id := by
  have hhead : source.cloned? "HEAD" = some id := by
    rw [cloned?_head, headCommit?_of_branch hon, hbranch]
  have hne : name ≠ "HEAD" := by
    rintro rfl
    rw [hhead] at hself
    cases hself
  have hat : b ≠ "@" := by
    rintro rfl
    exact hne hname.symm
  rw [if_neg hat] at hname
  subst hname
  exact ⟨hne, cloned?_heads.mpr ⟨hon, hbranch⟩⟩

/-- The name of another branch is not found as the clone's own one. -/
theorem cloned?_heads_of_off (hoff : source.head ≠ .branch b)
    (hname : (if b = "@" then "HEAD" else b) = name) (hself : source.cloned? name = none) :
    source.cloned? ("refs/heads/" ++ name) = none := by
  by_cases hat : b = "@"
  · rw [if_pos hat] at hname
    exact cloned?_heads_of_no_head (hname ▸ hself)
  · rw [if_neg hat] at hname
    exact cloned?_heads_of_not_on (hname ▸ hoff)

/-- Behind `origin/` there are a tag and a branch of the clone, and then the branch of the source. -/
theorem revision?_remote (hbranch : source.branches.find? b = some id) :
    (WorkingCopy.clone source).revision? ⟨.name ("origin/" ++ b), []⟩ =
      ((source.cloned? ("refs/tags/origin/" ++ b)).or (source.cloned? ("refs/heads/origin/" ++ b))).or
        (if b = "HEAD" then (source.cloned? "refs/remotes/origin/HEAD").or
            (source.cloned? "refs/remotes/origin/HEAD/HEAD")
          else some id) := by
  have horigin : ("origin/" ++ b).toList.all isHexDigit = false := by
    rw [String.toList_append, List.all_append]
    have hstart : "origin/".toList.all isHexDigit = false := by decide
    rw [hstart, Bool.false_and]
  have hfull : source.fullId? ("origin/" ++ b) = none := by
    simp only [fullId?, horigin, Bool.false_and, Bool.false_eq_true, if_false]
  have hshort : source.shortId? ("origin/" ++ b) = none := by
    simp only [shortId?, horigin, Bool.false_and, Bool.false_eq_true, if_false]
  have hself : source.cloned? ("origin/" ++ b) = none :=
    cloned?_append_eq_none (by decide) b
  have hrefs : source.cloned? ("refs/origin/" ++ b) = none :=
    cloned?_append_eq_none (by decide) b
  have hjoin (start : String) : start ++ ("origin/" ++ b) = start ++ "origin/" ++ b :=
    String.append_assoc.symm
  have hplaces : places ("origin/" ++ b) = ["origin/" ++ b, "refs/origin/" ++ b, "refs/tags/origin/" ++ b,
      "refs/heads/origin/" ++ b, "refs/remotes/origin/" ++ b, "refs/remotes/origin/" ++ b ++ "/HEAD"] := by
    simp only [places, hjoin]
    rfl
  rw [revision?_name, hfull, hshort, hplaces]
  simp only [findSome?_cons_eq_or, List.findSome?_nil, hself, hrefs, Option.none_or, Option.or_none,
    Option.or_assoc]
  split
  · rename_i hhead
    rw [hhead]
    rfl
  · rename_i hhead
    have hremote : source.cloned? ("refs/remotes/origin/" ++ b) = some id :=
      cloned?_eq_some_iff.mpr (.remote hhead hbranch)
    rw [hremote]
    rfl

/-- What comes first among the look-ups of both attempts. -/
theorem first_lookup (hbranch : source.branches.find? b = some id) :
    ((WorkingCopy.clone source).revision? ⟨.name (if b = "@" then "HEAD" else b), []⟩).or
        ((WorkingCopy.clone source).revision? ⟨.name ("origin/" ++ b), []⟩) =
      (source.capture? b).or (if b = "HEAD" then none else some id) := by
  rw [revision?_name, revision?_remote hbranch]
  simp only [capture?, captures, places, List.findSome?_append, findSome?_cons_eq_or, List.findSome?_nil,
    Option.or_none, Option.or_assoc]
  generalize hname : (if b = "@" then "HEAD" else b) = name
  cases source.fullId? name with
  | some found => rfl
  | none =>
  cases hself : source.cloned? name with
  | some found => rfl
  | none =>
  cases source.cloned? ("refs/" ++ name) with
  | some found => rfl
  | none =>
  cases source.cloned? ("refs/tags/" ++ name) with
  | some found => rfl
  | none =>
  simp only [Option.none_or]
  by_cases hon : source.head = .branch b
  · obtain ⟨hb, hheads⟩ := cloned?_heads_of_on hbranch hon hname hself
    rw [hheads, if_pos hon]
    simp only [hb, if_false]
    rfl
  · rw [cloned?_heads_of_off hon hname hself, if_neg hon]
    simp only [List.findSome?_append, findSome?_cons_eq_or, List.findSome?_nil, Option.none_or, Option.or_none,
      Option.or_assoc]
    by_cases hb : b = "HEAD"
    · have hhead : source.cloned? "HEAD" = none := by
        rw [← hname, hb] at hself
        exact hself
      simp [hb, cloned?_remoteHead_of_no_head hhead]
    · simp [hb]

/-- A branch leads to the commit of the first look-up that finds one, and its own comes last. -/
theorem resolve_branch (hname : IsReferenceName b) (hbranch : source.branches.find? b = some id) :
    (WorkingCopy.clone source).resolve b =
      match (source.capture? b).or (if b = "HEAD" then none else some id) with
      | some found => .ok found
      | none => .error (.unresolvableReference b) := by
  have hlocal := parse?_of_isReferenceName hname
  have hremote := parse?_of_isReferenceName hname.remote
  have hat : "origin/" ++ b ≠ "@" := Diverge.append_ne (by decide) b
  rw [if_neg hat] at hremote
  have hlookups := first_lookup hbranch
  cases hfound : (source.capture? b).or (if b = "HEAD" then none else some id) with
  | some found =>
    simp only [WorkingCopy.resolve, hlocal, hremote, Option.bind_some, Option.orElse_eq_or, hlookups, hfound]
  | none =>
    simp only [WorkingCopy.resolve, hlocal, hremote, Option.bind_some, Option.orElse_eq_or, hlookups, hfound]

/-- A branch of the source is found under its name exactly if the first look-up before it that finds a commit
finds the same one, or if none finds any. A branch with the name of the head has no place of its own. -/
theorem resolve_branch_iff (hname : IsReferenceName b) (hbranch : source.branches.find? b = some id) :
    (WorkingCopy.clone source).resolve b = .ok id ↔
      source.capture? b = some id ∨ (source.capture? b = none ∧ b ≠ "HEAD") := by
  rw [resolve_branch hname hbranch]
  cases source.capture? b with
  | some found => simp
  | none => by_cases hb : b = "HEAD" <;> simp [hb]

theorem resolve_branch_iff_topic :
    IsReferenceName "topic" ∧ Sample.forked.branches.find? "topic" = some Sample.feature.id ∧
      (WorkingCopy.clone Sample.forked).resolve "topic" = .ok Sample.feature.id := by
  have hname : IsReferenceName "topic" := ⟨by decide, by simp, by decide⟩
  have hbranch : Sample.forked.branches.find? "topic" = some Sample.feature.id := rfl
  have hcapture : Sample.forked.capture? "topic" = none := by decide
  exact ⟨hname, hbranch, (resolve_branch_iff hname hbranch).mpr (.inr ⟨hcapture, by decide⟩)⟩

/-- A branch named `origin` is taken for the head of the source, and no tag has its name. -/
theorem resolve_branch_origin :
    Sample.forked.branches.find? "origin" = some Sample.feature.id ∧ Sample.forked.tags = [] ∧
      (WorkingCopy.clone Sample.forked).resolve "origin" = .ok Sample.root.id ∧
      Sample.root.id ≠ Sample.feature.id :=
  ⟨rfl, rfl, rfl, by decide⟩

/-- A name that neither writes an id nor begins as the names that a clone has of its own. -/
structure Ordinary (b : String) : Prop where
  notId : ¬(b.toList.all isHexDigit = true ∧ 4 ≤ b.toList.length ∧ b.toList.length ≤ CommitId.width)
  notHead : b ≠ "HEAD" ∧ b ≠ "@" ∧ b ≠ "origin"
  outside : ∀ start ∈ ["refs/", "heads/", "tags/", "remotes/", "origin/"], ∀ rest, b ≠ start ++ rest

namespace Ordinary

variable (hordinary : Ordinary b)

include hordinary

theorem fullId?_eq_none : source.fullId? b = none := by
  have hid := hordinary.notId
  unfold fullId?
  split
  · rename_i hfull
    simp only [Bool.and_eq_true, beq_iff_eq] at hfull
    exact absurd ⟨hfull.1, by rw [hfull.2]; decide, Nat.le_of_eq hfull.2⟩ hid
  · rfl

theorem shortId?_eq_none : source.shortId? b = none := by
  have hid := hordinary.notId
  unfold shortId?
  split
  · rename_i hshort
    simp only [Bool.and_eq_true, decide_eq_true_eq] at hshort
    exact absurd ⟨hshort.1.1, hshort.1.2, Nat.le_of_lt hshort.2⟩ hid
  · rfl

theorem ne_append_append {start : String} (hstart : start ∈ ["refs/", "heads/", "tags/", "remotes/", "origin/"])
    (more rest : String) : b ≠ start ++ more ++ rest := by
  rw [String.append_assoc]
  exact hordinary.outside start hstart (more ++ rest)

theorem cloned?_self_eq_none : source.cloned? b = none := by
  have hrefs : "refs/" ∈ ["refs/", "heads/", "tags/", "remotes/", "origin/"] := by decide
  exact cloned?_eq_none hordinary.notHead.1 (hordinary.ne_append_append hrefs "heads/")
    (hordinary.ne_append_append hrefs "tags/") (hordinary.ne_append_append hrefs "remotes/origin/")

theorem cloned?_refs_eq_none : source.cloned? ("refs/" ++ b) = none := by
  have hbehind {start : String} (hstart : ∀ rest, b ≠ start ++ rest) (name : String) :
      "refs/" ++ b ≠ "refs/" ++ start ++ name := by
    intro heq
    exact hstart name (append_cancel heq)
  have hremotes : "remotes/" ∈ ["refs/", "heads/", "tags/", "remotes/", "origin/"] := by decide
  exact cloned?_eq_none (Diverge.append_ne (by decide) b)
    (hbehind (hordinary.outside "heads/" (by decide))) (hbehind (hordinary.outside "tags/" (by decide)))
    (hbehind (hordinary.ne_append_append hremotes "origin/"))

theorem cloned?_remotes_eq_none : source.cloned? ("refs/remotes/" ++ b) = none := by
  apply cloned?_eq_none (Diverge.append_ne (by decide) b) (Diverge.append_ne_append (by decide) b)
    (Diverge.append_ne_append (by decide) b)
  intro name heq
  have hcancelled : b = "origin/" ++ name := append_cancel heq
  exact hordinary.outside "origin/" (by decide) name hcancelled

theorem cloned?_remoteHead_eq_none : source.cloned? ("refs/remotes/" ++ b ++ "/HEAD") = none := by
  rw [String.append_assoc]
  apply cloned?_eq_none (Diverge.append_ne (by decide) _) (Diverge.append_ne_append (by decide) _)
    (Diverge.append_ne_append (by decide) _)
  intro name heq
  have hrest : b ++ "/HEAD" = "origin/" ++ name := append_cancel heq
  have hlists := congrArg String.toList hrest
  rw [String.toList_append, String.toList_append] at hlists
  have hstart : ¬"origin/".toList <+: b.toList := by
    rintro ⟨rest, hb⟩
    have htext : "origin/" ++ String.ofList rest = b := by
      apply String.toList_inj.mp
      rw [← hb, String.toList_append]
      simp
    exact hordinary.outside "origin/" (by decide) _ htext.symm
  have hshort : b.toList <+: "origin/".toList :=
    (List.prefix_or_prefix_of_prefix (List.prefix_append b.toList "/HEAD".toList)
      (hlists ▸ List.prefix_append "origin/".toList name.toList)).resolve_right hstart
  -- of the beginnings of `origin/`, two begin with it when a slash and the head follow
  have hbeginnings : ∀ n ≤ 7, "origin/".toList <+: "origin/".toList.take n ++ "/HEAD".toList →
      "origin/".toList.take n = "origin".toList ∨ "origin/".toList.take n = "origin/".toList := by decide
  have hbegins : "origin/".toList <+: b.toList ++ "/HEAD".toList := hlists ▸ List.prefix_append _ _
  have htake := List.prefix_iff_eq_take.mp hshort
  have hlength : b.toList.length ≤ 7 := hshort.length_le
  rw [htake] at hbegins
  rcases hbeginnings _ hlength hbegins with hb | hb
  · exact hordinary.notHead.2.2 (String.toList_inj.mp (htake.trans hb))
  · exact hstart (htake.trans hb ▸ List.prefix_refl _)

end Ordinary

theorem cloned?_tags_eq_none (hnone : ∀ tag ∈ source.tags, tag.name ≠ name) :
    source.cloned? ("refs/tags/" ++ name) = none := by
  have hfind : (WorkingCopy.clone source).tags.find? (fun tag => tag.name == name) = none := by
    apply List.find?_eq_none.mpr
    intro tag htag
    simpa using hnone tag htag
  rw [cloned?, WorkingCopy.reference?_tags, hfind]
  rfl

/-- With an ordinary name a branch is found, unless there is a tag of that name, or a tag or the branch of the
head with that name behind `origin/`. -/
theorem resolve_of_ordinary (hname : IsReferenceName b) (hordinary : Ordinary b)
    (hbranch : source.branches.find? b = some id)
    (htags : ∀ tag ∈ source.tags, tag.name ≠ b ∧ tag.name ≠ "origin/" ++ b)
    (hhead : source.head ≠ .branch ("origin/" ++ b)) :
    (WorkingCopy.clone source).resolve b = .ok id := by
  have htag := cloned?_tags_eq_none fun tag htag => (htags tag htag).1
  have hremoteTag : source.cloned? ("refs/tags/origin/" ++ b) = none := by
    have hsplit : "refs/tags/" ++ "origin/" ++ b = "refs/tags/" ++ ("origin/" ++ b) := String.append_assoc
    have hnone := cloned?_tags_eq_none fun tag htag => (htags tag htag).2
    exact hsplit ▸ hnone
  have hremoteBranch : source.cloned? ("refs/heads/origin/" ++ b) = none := by
    have hsplit : "refs/heads/" ++ "origin/" ++ b = "refs/heads/" ++ ("origin/" ++ b) := String.append_assoc
    have hnone := cloned?_heads_of_not_on hhead
    exact hsplit ▸ hnone
  have hcapture : source.capture? b = none := by
    simp [capture?, captures, hordinary.notHead, hordinary.fullId?_eq_none, hordinary.shortId?_eq_none,
      hordinary.cloned?_self_eq_none, hordinary.cloned?_refs_eq_none, hordinary.cloned?_remotes_eq_none,
      hordinary.cloned?_remoteHead_eq_none, htag, hremoteTag, hremoteBranch]
  rw [resolve_branch hname hbranch, hcapture, if_neg hordinary.notHead.1]
  rfl

end Repository

end CommitVerdict
