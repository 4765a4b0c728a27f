import CommitVerdict.Git.WorkingCopy
import CommitVerdict.Proofs.Repository.History

namespace CommitVerdict

namespace Path

theorem isTrackableName_dataName : isTrackableName WorkingCopy.dataName = false := by decide

/-- A trackable path does not lead to the clone's own data, nor to a place above it. -/
theorem IsTrackable.not_conflicts_data {p q : Path} (htrackable : p.isTrackable = true)
    (hdata : [WorkingCopy.dataName] <+: q) : conflicts p q = false := by
  obtain ⟨rest, rfl⟩ := hdata
  cases p with
  | nil => simp [isTrackable] at htrackable
  | cons name p =>
    have hname : isTrackableName name = true := by
      simp only [isTrackable, List.all_cons, Bool.and_eq_true] at htrackable
      exact htrackable.2.1
    have hne : name ≠ WorkingCopy.dataName := by
      rintro rfl
      simp [isTrackableName_dataName] at hname
    by_contra hconflict
    rw [Bool.not_eq_false, conflicts_iff, List.singleton_append] at hconflict
    rcases hconflict with h | h
    · exact hne (List.cons_prefix_cons.mp h).1
    · exact hne (List.cons_prefix_cons.mp h).1.symm

end Path

namespace Snapshot

theorem Trackable.not_blocks_data {s : Snapshot} (htrackable : s.Trackable) {q : Path}
    (hdata : [WorkingCopy.dataName] <+: q) : ¬ s.Blocks q := by
  rintro ⟨p, hp, hconflict⟩
  simp [Path.IsTrackable.not_conflicts_data (htrackable p hp) hdata] at hconflict

end Snapshot

namespace Directory

/-- The files of a clone apart from its own data, as `WorkingCopy.workingFiles` has them. -/
def working (d : Directory) : Directory := d.removeBelow [WorkingCopy.dataName]

/-- The part of a clone's own data that its directory holds. -/
def data (d : Directory) : Directory := d.restrict fun p => [WorkingCopy.dataName].isPrefixOf p

theorem get?_working (d : Directory) (p : Path) :
    d.working.get? p = if [WorkingCopy.dataName].isPrefixOf p then none else d.get? p := by
  rw [working, Tree.removeBelow, Tree.get?_restrict]
  cases [WorkingCopy.dataName].isPrefixOf p <;> rfl

theorem get?_data (d : Directory) (p : Path) :
    d.data.get? p = if [WorkingCopy.dataName].isPrefixOf p then d.get? p else none :=
  Tree.get?_restrict d _ p

/-- Putting files of a commit into a directory leaves the clone's own data alone. -/
theorem data_putEntries (d : Directory) {s : Snapshot} (htrackable : s.Trackable) :
    (WorkingCopy.putEntries d s.leaves).data = d.data := by
  refine Tree.ext_get? fun q => ?_
  rw [get?_data, get?_data]
  split
  · rename_i hdata
    have hfree : ¬ (ofSnapshot s).Blocks q := by
      rw [ofSnapshot, Tree.blocks_mapLeaves]
      exact htrackable.not_blocks_data (List.isPrefixOf_iff_prefix.mp hdata)
    exact Tree.get?_putAll_of_not_blocks d hfree
  · rfl

/-- What happens to the working files when files of a commit are put is a matter of the working files
alone. -/
theorem working_putEntries (d : Directory) {s : Snapshot} (htrackable : s.Trackable) :
    (WorkingCopy.putEntries d s.leaves).working = WorkingCopy.putEntries d.working s.leaves := by
  refine Tree.ext_get? fun q => ?_
  have hput (base : Directory) : WorkingCopy.putEntries base s.leaves =
      base.putAll (ofSnapshot s).leaves := rfl
  rw [get?_working, hput, hput]
  by_cases hblocks : (ofSnapshot s).Blocks q
  · have hdata : [WorkingCopy.dataName].isPrefixOf q = false := by
      by_contra hbegins
      rw [Bool.not_eq_false, List.isPrefixOf_iff_prefix] at hbegins
      rw [ofSnapshot, Tree.blocks_mapLeaves] at hblocks
      exact htrackable.not_blocks_data hbegins hblocks
    rw [if_neg (by simp [hdata]), Tree.get?_putAll_of_blocks _ hblocks,
      Tree.get?_putAll_of_blocks _ hblocks]
  · rw [Tree.get?_putAll_of_not_blocks _ hblocks, Tree.get?_putAll_of_not_blocks _ hblocks,
      get?_working]

theorem working_restrict (d : Directory) (keep : Path → Bool) :
    working (d.restrict keep) = d.working.restrict keep := by
  refine Tree.ext_get? fun q => ?_
  rw [get?_working, Tree.get?_restrict, Tree.get?_restrict, get?_working]
  split <;> split <;> rfl

theorem working_data (d : Directory) : d.data.working = Tree.empty := by
  refine Tree.ext_get? fun q => ?_
  rw [get?_working, get?_data]
  split <;> rfl

end Directory

namespace WorkingCopy

/-- The lock of the index is part of the clone's own data. -/
theorem contains_lockPath (d : Directory) : d.contains lockPath = d.data.contains lockPath := by
  simp only [Directory.data, Tree.restrict, Tree.contains, List.any_filter]
  congr
  funext leaf
  cases hlock : lockPath.isPrefixOf leaf.1 with
  | false => simp
  | true =>
    have hbelow : [dataName] <+: leaf.1 :=
      (by decide : [dataName] <+: lockPath).trans (List.isPrefixOf_iff_prefix.mp hlock)
    simpa using hbelow

end WorkingCopy

end CommitVerdict
