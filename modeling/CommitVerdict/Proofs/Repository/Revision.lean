import CommitVerdict.Git.Revision
import CommitVerdict.Proofs.Repository.History

namespace CommitVerdict

namespace History

variable {h : History}

theorem holds_of_mem {c : Commit} (hmem : c ∈ h.commits) : h.Holds c.id :=
  List.mem_map_of_mem hmem

theorem mem_of_find?_bind {c : Commit} {id : Option CommitId} (hfind : id.bind h.find? = some c) :
    c ∈ h.commits := by
  obtain ⟨parent, -, hparent⟩ := Option.bind_eq_some_iff.mp hfind
  exact (find?_eq_some hparent).1

theorem mem_of_ancestor? {n : Nat} {c d : Commit} (hmem : c ∈ h.commits)
    (hancestor : h.ancestor? n c = some d) : d ∈ h.commits := by
  induction n generalizing c with
  | zero => exact Option.some.inj hancestor ▸ hmem
  | succ n ih =>
    obtain ⟨parent, hparent, hrest⟩ := Option.bind_eq_some_iff.mp hancestor
    exact ih (mem_of_find?_bind hparent) hrest

theorem mem_of_newest? {among : CommitId → Bool} {text : String} {c : Commit}
    (hnewest : h.newest? among text = some c) : c ∈ h.commits :=
  List.mem_reverse.mp (List.mem_of_find?_eq_some hnewest)

end History

namespace Branches

theorem mem_of_find? {b : Branches} {name : String} {id : CommitId} (hfind : b.find? name = some id) :
    ∃ branch ∈ b, branch.2 = id := by
  obtain ⟨branch, hbranch, hid⟩ := Option.map_eq_some_iff.mp hfind
  exact ⟨branch, List.mem_of_find?_eq_some hbranch, hid⟩

end Branches

namespace WorkingCopy

/-- All names of a clone lead to commits of its history. -/
structure NamesHeld (w : WorkingCopy) : Prop where
  head : ∀ id, w.head = .detached id → w.history.Holds id
  branches : ∀ branch ∈ w.branches, w.history.Holds branch.2
  remoteBranches : ∀ branch ∈ w.remoteBranches, w.history.Holds branch.2
  tags : ∀ tag ∈ w.tags, w.history.Holds tag.target

theorem namesHeld_clone (source : Repository) : (clone source).NamesHeld where
  head := source.headHeld
  branches := by
    intro branch hbranch
    unfold clone at hbranch
    cases hhead : source.head with
    | detached id => cases hfind : source.history.find? id <;> simp [hhead, hfind] at hbranch
    | branch name =>
      cases hname : source.branches.find? name with
      | none => simp [hhead, hname] at hbranch
      | some id =>
        cases hfind : source.history.find? id with
        | none => simp [hhead, hname, hfind] at hbranch
        | some c =>
          obtain rfl : branch = (name, id) := by simpa [hhead, hname, hfind] using hbranch
          exact History.holds_of_find? hfind
  remoteBranches := source.branchesHeld
  tags := source.tagsHeld

variable {w : WorkingCopy}

theorem NamesHeld.find? (b : Branches) (hheld : ∀ branch ∈ b, w.history.Holds branch.2) {name : String}
    {id : CommitId} (hfind : b.find? name = some id) : w.history.Holds id := by
  obtain ⟨branch, hmem, rfl⟩ := Branches.mem_of_find? hfind
  exact hheld branch hmem

theorem NamesHeld.headCommit? (hnames : w.NamesHeld) {id : CommitId}
    (hhead : w.headCommit? = some id) : w.history.Holds id := by
  unfold WorkingCopy.headCommit? at hhead
  cases hw : w.head with
  | detached other =>
    obtain rfl : other = id := by simpa [hw] using hhead
    exact hnames.head other hw
  | branch name => exact NamesHeld.find? w.branches hnames.branches (by simpa [hw] using hhead)

theorem NamesHeld.reference? (hnames : w.NamesHeld) {name : String} {t : Revision.Target}
    (href : w.reference? name = some t) : w.history.Holds t.commit := by
  unfold WorkingCopy.reference? at href
  split at href
  · obtain ⟨id, hid, rfl⟩ := Option.map_eq_some_iff.mp href
    exact hnames.headCommit? hid
  · split at href
    · obtain ⟨id, hid, rfl⟩ := Option.map_eq_some_iff.mp href
      obtain ⟨branch, -, hbranch⟩ := Option.bind_eq_some_iff.mp hid
      exact NamesHeld.find? w.remoteBranches hnames.remoteBranches hbranch
    · split at href
      · obtain ⟨id, hid, rfl⟩ := Option.map_eq_some_iff.mp href
        exact NamesHeld.find? w.branches hnames.branches hid
      · obtain ⟨tag, htag, rfl⟩ := Option.map_eq_some_iff.mp href
        exact hnames.tags tag (List.mem_of_find?_eq_some htag)
      · obtain ⟨id, hid, rfl⟩ := Option.map_eq_some_iff.mp href
        exact NamesHeld.find? w.remoteBranches hnames.remoteBranches hid
      · cases href

theorem NamesHeld.named? (hnames : w.NamesHeld) {name : String} {t : Revision.Target}
    (hnamed : w.named? name = some t) : w.history.Holds t.commit := by
  obtain ⟨place, -, href⟩ := List.exists_of_findSome?_eq_some hnamed
  exact hnames.reference? href

theorem holds_of_abbreviated? {digits : List Char} {t : Revision.Target}
    (habbreviated : w.abbreviated? digits = some t) : w.history.Holds t.commit := by
  unfold abbreviated? at habbreviated
  split at habbreviated
  · rename_i c hfilter
    obtain rfl := Option.some.inj habbreviated
    have hmem : c ∈ w.history.commits := by
      have h := List.mem_filter.mp (hfilter ▸ List.mem_singleton_self c)
      exact h.1
    exact History.holds_of_mem hmem
  · cases habbreviated

theorem NamesHeld.base? (hnames : w.NamesHeld) {base : RevisionBase} {t : Revision.Target}
    (hbase : w.base? base = some t) : w.history.Holds t.commit := by
  cases base with
  | latest name => exact hnames.named? hbase
  | message text =>
    obtain ⟨c, hc, rfl⟩ := Option.map_eq_some_iff.mp hbase
    exact History.holds_of_mem (History.mem_of_newest? hc)
  | name text =>
    have hdigits {condition : Prop} [Decidable condition]
        (hfound : (if condition then w.abbreviated? text.toList else none) = some t) :
        w.history.Holds t.commit := by
      split at hfound
      · exact holds_of_abbreviated? hfound
      · cases hfound
    simp only [WorkingCopy.base?, Option.orElse_eq_or, Option.or_eq_some_iff] at hbase
    rcases hbase with (hfull | ⟨-, hname⟩) | ⟨-, hshort⟩
    · exact hdigits hfull
    · exact hnames.named? hname
    · exact hdigits hshort

/-- A step leads from a commit of the history to another one. -/
theorem holds_of_step? {step : RevisionStep} {t u : Revision.Target} (ht : w.history.Holds t.commit)
    (hstep : w.step? t step = some u) : w.history.Holds u.commit := by
  cases step with
  | ancestor n =>
    obtain ⟨c, hc, rfl⟩ := Option.map_eq_some_iff.mp hstep
    obtain ⟨d, hd, hancestor⟩ := Option.bind_eq_some_iff.mp hc
    exact History.holds_of_mem (History.mem_of_ancestor? (History.find?_eq_some hd).1 hancestor)
  | parent n =>
    cases n with
    | zero => exact Option.some.inj hstep ▸ ht
    | succ n =>
      obtain ⟨c, hc, hrest⟩ := Option.bind_eq_some_iff.mp hstep
      obtain ⟨parent, hparent, hu⟩ := Option.bind_eq_some_iff.mp hrest
      obtain rfl := Option.some.inj hu
      exact w.history.closed c (History.find?_eq_some hc).1 parent (List.mem_of_getElem? hparent)
  | peel => exact Option.some.inj hstep ▸ ht
  | tag =>
    simp only [step?] at hstep
    split at hstep
    · exact Option.some.inj hstep ▸ ht
    · cases hstep
  | message text =>
    obtain ⟨c, hc, rfl⟩ := Option.map_eq_some_iff.mp hstep
    exact History.holds_of_mem (History.mem_of_newest? hc)

theorem holds_of_steps {steps : List RevisionStep} {t u : Revision.Target}
    (ht : w.history.Holds t.commit) (hsteps : steps.foldlM w.step? t = some u) :
    w.history.Holds u.commit := by
  induction steps generalizing t with
  | nil => exact Option.some.inj hsteps ▸ ht
  | cons step steps ih =>
    obtain ⟨next, hnext, hrest⟩ := Option.bind_eq_some_iff.mp hsteps
    exact ih (holds_of_step? ht hnext) hrest

theorem NamesHeld.revision? (hnames : w.NamesHeld) {r : Revision} {id : CommitId}
    (hrevision : w.revision? r = some id) : w.history.Holds id := by
  obtain ⟨start, hstart, hrest⟩ := Option.bind_eq_some_iff.mp hrevision
  obtain ⟨target, htarget, hid⟩ := Option.bind_eq_some_iff.mp hrest
  exact Option.some.inj hid ▸ holds_of_steps (hnames.base? hstart) htarget

/-- A reference that resolves names a commit of the history. -/
theorem NamesHeld.resolve (hnames : w.NamesHeld) {reference : String} {id : CommitId}
    (hresolve : w.resolve reference = .ok id) : w.history.Holds id := by
  have hattempt {text : String} {found : CommitId}
      (hfound : ((Revision.parse? text).bind w.revision?) = some found) : w.history.Holds found := by
    obtain ⟨r, -, hr⟩ := Option.bind_eq_some_iff.mp hfound
    exact hnames.revision? hr
  simp only [WorkingCopy.resolve, Option.orElse_eq_or] at hresolve
  split at hresolve
  · rename_i found hfound
    obtain rfl := Except.ok.inj hresolve
    rcases Option.or_eq_some_iff.mp hfound with hlocal | ⟨-, hremote⟩
    · exact hattempt hlocal
    · exact hattempt hremote
  · cases hresolve

end WorkingCopy

end CommitVerdict
