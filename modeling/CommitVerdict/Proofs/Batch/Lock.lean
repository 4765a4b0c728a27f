import CommitVerdict.Proofs.Batch.Interruption

namespace CommitVerdict

namespace Progress

variable {σ : Type} {p p' q : Progress σ} {suite : Suite σ} {layout : ProjectLayout} {id : CommitId}
  {h : History} {c : Commit} {pairs : List (String × CommitId)} {e : VerificationError}

/-- The batch of these commits comes to the commit `id`, in the state `q`. -/
def Reaches (p : Progress σ) (suite : Suite σ) (layout : ProjectLayout) (pairs : List (String × CommitId))
    (q : Progress σ) (id : CommitId) : Prop :=
  ∃ done reference rest entries, pairs = done ++ (reference, id) :: rest ∧
    p.examineAll suite layout done = (q, entries, .ok ())

theorem Reaches.history (hreaches : p.Reaches suite layout pairs q id) :
    q.copy.history = p.copy.history := by
  obtain ⟨done, reference, rest, entries, -, hdone⟩ := hreaches
  exact examineAll_history hdone

theorem Reaches.mem (hreaches : p.Reaches suite layout pairs q id) :
    ∃ reference, (reference, id) ∈ pairs := by
  obtain ⟨done, reference, rest, entries, rfl, -⟩ := hreaches
  exact ⟨reference, by simp⟩

/-- Judging this commit in the state `q` meets the lock: at the reset, or at the restoration after the first
run. -/
structure MeetsLock (q : Progress σ) (suite : Suite σ) (layout : ProjectLayout) (id : CommitId) (h : History)
    (c : Commit) : Prop where
  find? : h.find? id = some c
  triage_eq_none : (h.changeSet layout c).triage = none
  isLocked : q.copy.isLocked = true ∨ (q.afterFirstRun suite id).copy.isLocked = true

/-- Judging commits that the clone holds fails exactly if one of them meets the lock. -/
theorem examineAll_snd_eq_error_iff (hhistory : p.copy.history = h)
    (hheld : ∀ pair ∈ pairs, ∃ c, h.find? pair.2 = some c) :
    (p.examineAll suite layout pairs).2.2 = .error e ↔
      e = lockError ∧ ∃ q id c, p.Reaches suite layout pairs q id ∧ q.MeetsLock suite layout id h c := by
  constructor
  · intro herror
    obtain ⟨done, reference, id, rest, q, rfl, hdone, hstop⟩ :=
      examineAll_eq_error_iff.mp (Prod.ext rfl (Prod.ext rfl herror))
    have hreaches : p.Reaches suite layout (done ++ (reference, id) :: rest) q id :=
      ⟨done, reference, rest, _, rfl, hdone⟩
    obtain ⟨c, hfind⟩ := hheld (reference, id) (by simp)
    obtain rfl : q.copy.history = h := hreaches.history.trans hhistory
    obtain ⟨rfl, htriage, hlocked⟩ := (examine_snd_eq_error_iff hfind).mp (congrArg Prod.snd hstop)
    exact ⟨rfl, q, id, c, hreaches, hfind, htriage, hlocked⟩
  · rintro ⟨rfl, q, id, c, hreaches, hfind, htriage, hlocked⟩
    obtain rfl : q.copy.history = h := hreaches.history.trans hhistory
    obtain ⟨done, reference, rest, entries, rfl, hdone⟩ := hreaches
    have hstop : (q.examine suite layout reference id).2 = .error lockError :=
      (examine_snd_eq_error_iff hfind).mpr ⟨rfl, htriage, hlocked⟩
    rw [examineAll_eq_error_iff.mpr ⟨done, reference, id, rest, q, rfl, hdone, Prod.ext rfl hstop⟩]

/-- Once the references are resolved, the outcome is that of judging the commits. -/
theorem verify_outcome_eq_error_iff {references : List String}
    (hresolve : p.resolveAll references = (q, .ok pairs)) (elapsed : Duration) :
    (p.verify suite layout elapsed references).outcome = .error e ↔
      (q.examineAll suite layout pairs).2.2 = .error e := by
  rcases hall : q.examineAll suite layout pairs with ⟨p', entries, e' | ⟨⟩⟩
  · simp [verify_of_stopped hresolve hall]
  · simp [verify_of_ok hresolve hall]

/-- A fresh clone holds the commits that it resolves references to. -/
theorem held_of_resolveAll {source : Repository} {memory : σ} {references : List String}
    (hresolve : (start (.clone source) memory).resolveAll references = (q, .ok pairs)) :
    ∀ pair ∈ pairs, ∃ c, source.history.find? pair.2 = some c := by
  obtain ⟨-, hresolved, -⟩ := resolveAll_eq_ok_iff.mp hresolve
  intro pair hpair
  exact ((WorkingCopy.namesHeld_clone source).resolve (hresolved pair hpair)).find?

/-- When all references are resolved on a fresh clone, the clone answers everything that is asked of it for
any commit that the batch comes to, and the batch fails exactly if one of them meets the lock of the index.
A batch that has nothing to run always succeeds. -/
theorem verify_error_iff_meetsLock {source : Repository} {memory : σ} {references : List String}
    (hresolve : (start (.clone source) memory).resolveAll references = (q, .ok pairs))
    (elapsed : Duration) :
    let outcome := ((start (.clone source) memory).verify suite layout elapsed references).outcome
    (∀ p id, q.Reaches suite layout pairs p id → p.Answered suite layout id) ∧
    (∀ e, outcome = .error e ↔ e = lockError ∧
      ∃ p id c, q.Reaches suite layout pairs p id ∧ p.MeetsLock suite layout id source.history c) ∧
    ((∀ pair ∈ pairs, ∀ c, source.history.find? pair.2 = some c →
      (source.history.changeSet layout c).triage ≠ none) → ∃ report, outcome = .ok report) := by
  intro outcome
  have hheld := held_of_resolveAll hresolve
  have hhistory : q.copy.history = source.history := by
    obtain ⟨-, -, rfl⟩ := resolveAll_eq_ok_iff.mp hresolve
    rfl
  have herror : ∀ e, outcome = .error e ↔ e = lockError ∧
      ∃ p id c, q.Reaches suite layout pairs p id ∧ p.MeetsLock suite layout id source.history c :=
    fun e => (verify_outcome_eq_error_iff hresolve elapsed).trans
      (examineAll_snd_eq_error_iff hhistory hheld)
  refine ⟨fun p id hreaches => ?_, herror, fun htriaged => ?_⟩
  · obtain ⟨reference, hmem⟩ := hreaches.mem
    obtain ⟨c, hfind⟩ := hheld _ hmem
    rw [← hreaches.history.trans hhistory] at hfind
    exact answered_of_find? hfind
  · cases houtcome : outcome with
    | ok report => exact ⟨report, rfl⟩
    | error e =>
      obtain ⟨-, p, id, c, hreaches, hmeets⟩ := (herror e).mp houtcome
      obtain ⟨reference, hmem⟩ := hreaches.mem
      exact absurd hmeets.triage_eq_none (htriaged _ hmem c hmeets.find?)

end Progress

/-- A suite that takes the lock stops the batch in which it does so. -/
theorem Progress.verify_error_iff_meetsLock_sample :
    ∃ q pairs, (start (.clone Sample.repository) 0).resolveAll ["main~", "main"] = (q, .ok pairs) ∧
      (∀ p id, q.Reaches Sample.lockingSuite .default pairs p id →
        p.Answered Sample.lockingSuite .default id) ∧
      ∃ p id c, q.Reaches Sample.lockingSuite .default pairs p id ∧
        p.MeetsLock Sample.lockingSuite .default id Sample.history c := by
  obtain ⟨q, hresolve⟩ : ∃ q, (start (.clone Sample.repository) 0).resolveAll ["main~", "main"] =
    (q, .ok [("main~", Sample.root.id), ("main", Sample.feature.id)]) := ⟨_, rfl⟩
  obtain ⟨hanswered, herror, -⟩ := verify_error_iff_meetsLock hresolve .zero
  exact ⟨q, _, hresolve, hanswered, ((herror _).mp Sample.verify_lockingSuite).2⟩

end CommitVerdict
