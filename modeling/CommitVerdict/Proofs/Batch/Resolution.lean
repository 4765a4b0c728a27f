import CommitVerdict.Batch
import CommitVerdict.Proofs.Differential.Phases

namespace CommitVerdict

namespace Progress

variable {σ : Type} {p p' : Progress σ} {reference : String} {references : List String}
  {resolved : List (String × CommitId)} {e : VerificationError}

/-- The event of a reference that has a commit. -/
def resolvedEvent (pair : String × CommitId) : Event := .referenceResolved pair.1 pair.2.abbreviated

def logAll (p : Progress σ) (events : List Event) : Progress σ :=
  { p with events := p.events ++ events }

theorem logAll_cons (p : Progress σ) (event : Event) (events : List Event) :
    (p.log event).logAll events = p.logAll (event :: events) := by
  simp [logAll, log]

/-- The only way in which a look-up of a reference fails. -/
theorem ask_resolve_eq_error_iff :
    p.ask (fun copy => copy.resolve reference) = .error e ↔
      (∀ id, p.copy.resolve reference ≠ .ok id) ∧ e = .unresolvableReference reference := by
  simp only [ask, WorkingCopy.resolve]
  split <;> simp [Except.mapError, VerificationError.ofGit, eq_comm]

theorem resolveAll_cons_eq_ok_iff :
    p.resolveAll (reference :: references) = (p', .ok resolved) ↔
      ∃ id rest, p.copy.resolve reference = .ok id ∧
        (p.log (resolvedEvent (reference, id))).resolveAll references = (p', .ok rest) ∧
        resolved = (reference, id) :: rest := by
  rw [resolveAll]
  cases hask : p.ask fun copy => copy.resolve reference with
  | error e =>
    have hnone := (ask_resolve_eq_error_iff.mp hask).1
    simp [hnone]
  | ok id =>
    have hid : p.copy.resolve reference = .ok id := ask_eq_ok_iff.mp hask
    simp only [hid, Except.ok.injEq, exists_and_left, exists_eq_left', resolvedEvent]
    generalize (p.log _).resolveAll references = rest
    obtain ⟨q, rest⟩ := rest
    cases rest <;> simp [eq_comm]

theorem resolveAll_cons_eq_error_iff :
    p.resolveAll (reference :: references) = (p', .error e) ↔
      (p.ask (fun copy => copy.resolve reference) = .error e ∧ p' = p) ∨
        ∃ id, p.copy.resolve reference = .ok id ∧
          (p.log (resolvedEvent (reference, id))).resolveAll references = (p', .error e) := by
  rw [resolveAll]
  cases hask : p.ask fun copy => copy.resolve reference with
  | error e' =>
    have hnone := (ask_resolve_eq_error_iff.mp hask).1
    simp [hnone, eq_comm, and_comm]
  | ok id =>
    have hid : p.copy.resolve reference = .ok id := ask_eq_ok_iff.mp hask
    simp only [hid, Except.ok.injEq, exists_eq_left', reduceCtorEq, false_and, false_or, resolvedEvent]
    generalize (p.log _).resolveAll references = rest
    obtain ⟨q, rest⟩ := rest
    cases rest <;> simp

/-- References are resolved if each of them has a commit; nothing changes then but the events. -/
theorem resolveAll_eq_ok_iff :
    p.resolveAll references = (p', .ok resolved) ↔
      references = resolved.map (·.1) ∧ (∀ pair ∈ resolved, p.copy.resolve pair.1 = .ok pair.2) ∧
        p' = p.logAll (resolved.map resolvedEvent) := by
  induction references generalizing p resolved with
  | nil =>
    rw [resolveAll, Prod.mk.injEq, Except.ok.injEq]
    constructor
    · rintro ⟨rfl, rfl⟩
      simp [logAll]
    · rintro ⟨hnames, -, rfl⟩
      obtain rfl := List.map_eq_nil_iff.mp hnames.symm
      simp [logAll]
  | cons reference references ih =>
    rw [resolveAll_cons_eq_ok_iff]
    constructor
    · rintro ⟨id, rest, hid, hrest, rfl⟩
      obtain ⟨rfl, hresolve, rfl⟩ := ih.mp hrest
      exact ⟨rfl, List.forall_mem_cons.mpr ⟨hid, hresolve⟩, logAll_cons p _ _⟩
    · rintro ⟨hnames, hresolve, rfl⟩
      obtain ⟨pair, rest, rfl, rfl, rfl⟩ := List.map_eq_cons_iff.mp hnames.symm
      obtain ⟨hid, hrest⟩ := List.forall_mem_cons.mp hresolve
      exact ⟨pair.2, rest, hid, ih.mpr ⟨rfl, hrest, (logAll_cons p _ _).symm⟩, rfl⟩

/-- Otherwise they are resolved up to the first one without a commit. -/
theorem resolveAll_error (hresolve : p.resolveAll references = (p', .error e)) :
    ∃ (resolved : List (String × CommitId)) (reference : String) (rest : List String),
      references = resolved.map (·.1) ++ reference :: rest ∧
      (∀ pair ∈ resolved, p.copy.resolve pair.1 = .ok pair.2) ∧
      (∀ id, p.copy.resolve reference ≠ .ok id) ∧ e = .unresolvableReference reference ∧
      p' = p.logAll (resolved.map resolvedEvent) := by
  induction references generalizing p with
  | nil => cases hresolve
  | cons reference references ih =>
    rcases resolveAll_cons_eq_error_iff.mp hresolve with ⟨hask, rfl⟩ | ⟨id, hid, hrest⟩
    · obtain ⟨hnone, rfl⟩ := ask_resolve_eq_error_iff.mp hask
      exact ⟨[], reference, references, rfl, by simp, hnone, rfl, by simp [logAll]⟩
    · obtain ⟨resolved, unknown, rest, rfl, hresolved, hnone, rfl, rfl⟩ := ih hrest
      exact ⟨(reference, id) :: resolved, unknown, rest, rfl, List.forall_mem_cons.mpr ⟨hid, hresolved⟩,
        hnone, rfl, logAll_cons p _ _⟩

end Progress

end CommitVerdict
