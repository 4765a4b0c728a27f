import CommitVerdict.Proofs.Batch.Soundness
import CommitVerdict.Session
import Mathlib.Algebra.BigOperators.Group.List.Lemmas
import Mathlib.Algebra.Ring.Nat
import Mathlib.Data.List.Sort
import Mathlib.Data.String.Basic

namespace CommitVerdict

namespace Verdict

theorem messages_nodup (verdict : Verdict) : verdict.messages.Nodup := by
  rcases verdict with _ | _ | ⟨_ | _⟩ | _ | _ <;> decide

/-- A message that complains of nothing. -/
def IsPeaceful (message : String) : Prop :=
  message = "Legitimate unittests" ∨ message = "No change to unittests"

instance : DecidablePred IsPeaceful := fun _ => inferInstanceAs (Decidable (_ ∨ _))

theorem isFailure_eq_true_iff {verdict : Verdict} :
    verdict.isFailure = true ↔ ∃ message ∈ verdict.messages, ¬IsPeaceful message := by
  unfold IsPeaceful
  rcases verdict with _ | _ | ⟨_ | _⟩ | _ | _ <;> decide

end Verdict

namespace Style

theorem resume_eq_self {opening cs : List Char} (hplain : '\x1b' ∉ cs) : resume opening cs = cs := by
  fun_induction resume opening cs with
  | case1 => simp at hplain
  | case2 c rest _ ih => rw [ih fun hmem => hplain (List.mem_cons_of_mem c hmem)]
  | case3 => rfl

/-- A text without escape sequences stands unchanged in its painted form. -/
theorem isInfix_paint (s : Style) (colored : Bool) {text : String} (hplain : '\x1b' ∉ text.toList) :
    text.toList <:+: (s.paint colored text).toList := by
  rw [paint]
  split
  · rw [String.toList_ofList, resume_eq_self hplain]
    exact List.infix_append _ _ _
  · exact List.infix_refl _

end Style

theorem pairwise_lt_eraseDups {texts : List String} (hordered : texts.Pairwise (· ≤ ·)) :
    texts.eraseDups.Pairwise (· < ·) := by
  -- removing the repetitions of the first text leaves a shorter ordered list
  induction hlength : texts.length using Nat.strong_induction_on generalizing texts with
  | _ n ih =>
    cases texts with
    | nil => exact .nil
    | cons text rest =>
      obtain ⟨hfirst, hrest⟩ := List.pairwise_cons.mp hordered
      have hshorter : (rest.filter fun other => !other == text).length < n := by
        have hle := List.length_filter_le (fun other => !other == text) rest
        rw [List.length_cons] at hlength
        omega
      rw [List.eraseDups_cons, List.pairwise_cons]
      refine ⟨fun other hother => ?_, ih _ hshorter (hrest.filter _) rfl⟩
      obtain ⟨hmem, hne⟩ := List.mem_filter.mp (List.mem_eraseDups.mp hother)
      have hne' : text ≠ other := by
        rintro rfl
        simp at hne
      exact lt_of_le_of_ne (hfirst other hmem) hne'

/-- Since no verdict has a message twice, a message is counted once for each commit. -/
theorem count_messages (entries : List CommitReport) (message : String) :
    (entries.flatMap (·.verdict.messages)).count message =
      entries.countP fun entry => entry.verdict.messages.contains message := by
  induction entries with
  | nil => rfl
  | cons entry rest ih =>
    have hentry : entry.verdict.messages.count message =
        if entry.verdict.messages.contains message then 1 else 0 := by
      rw [List.Nodup.count entry.verdict.messages_nodup]
      simp
    rw [List.flatMap_cons, List.count_append, ih, hentry, List.countP_cons]
    omega

namespace Session

/-- The counts stand in the order of the messages. -/
theorem messageCounts_pairwise (report : RunReport) :
    (messageCounts report).Pairwise fun a b => a.1 < b.1 := by
  rw [messageCounts, List.pairwise_map]
  exact pairwise_lt_eraseDups (List.pairwise_mergeSort' (· ≤ ·) _)

/-- Every message that some commit has is counted, with the number of commits that have it. -/
theorem mem_messageCounts_iff {report : RunReport} {message : String} {n : Nat} :
    (message, n) ∈ messageCounts report ↔
      0 < n ∧ n = report.commits.countP fun entry => entry.verdict.messages.contains message := by
  have hcount := count_messages report.commits message
  have hpos : message ∈ report.commits.flatMap (·.verdict.messages) ↔
      0 < (report.commits.flatMap (·.verdict.messages)).count message := List.count_pos_iff.symm
  simp only [messageCounts, List.mem_map, List.mem_eraseDups, List.mem_mergeSort, Prod.mk.injEq]
  constructor
  · rintro ⟨_, hmem, rfl, rfl⟩
    exact ⟨hpos.mp hmem, hcount⟩
  · rintro ⟨hn, rfl⟩
    rw [← hcount] at hn
    exact ⟨message, hpos.mpr hn, rfl, hcount⟩

/-- Together the counts are the number of lines that the report has. -/
theorem sum_messageCounts (report : RunReport) :
    ((messageCounts report).map (·.2)).sum = report.lines.length := by
  let messages := report.commits.flatMap (·.verdict.messages)
  have hlines : report.lines.length = messages.length := by
    simp [messages, RunReport.lines, CommitReport.lines, List.length_flatMap]
  have hnames : ((messageCounts report).map (·.1)).Perm messages.dedup := by
    apply (List.perm_ext_iff_of_nodup _ messages.nodup_dedup).mpr
    · intro name
      simp [messageCounts, messages]
    · rw [List.Nodup, List.pairwise_map]
      exact (messageCounts_pairwise report).imp fun h => h.ne
  have hcounts : (messageCounts report).map (·.2) =
      ((messageCounts report).map (·.1)).map messages.count := by
    simp [messageCounts, messages]
  rw [hlines, hcounts, (hnames.map messages.count).sum_eq]
  exact List.sum_map_count_dedup_eq_length messages

/-- Counts of messages that add up to what a list of entries shows. -/
structure Tallies (counts : List (String × Nat)) (entries : List CommitReport) : Prop where
  ordered : counts.Pairwise fun a b => a.1 < b.1
  mem_iff : ∀ message n, (message, n) ∈ counts ↔
    0 < n ∧ n = entries.countP fun entry => entry.verdict.messages.contains message
  sum_eq : (counts.map (·.2)).sum = (RunReport.lines ⟨entries⟩).length

theorem tallies_messageCounts (report : RunReport) : Tallies (messageCounts report) report.commits where
  ordered := messageCounts_pairwise report
  mem_iff _ _ := mem_messageCounts_iff
  sum_eq := sum_messageCounts report

end Session

/-- How many entries have a message that is a complaint. -/
def complaints (entries : List CommitReport) : Nat :=
  entries.countP fun entry => decide (∃ message ∈ entry.verdict.messages, ¬Verdict.IsPeaceful message)

theorem complaints_eq_failures (entries : List CommitReport) :
    complaints entries = RunReport.failures ⟨entries⟩ := by
  unfold complaints RunReport.failures
  congr 1
  funext entry
  rw [Bool.eq_iff_iff, decide_eq_true_iff, Verdict.isFailure_eq_true_iff]

end CommitVerdict
