namespace CommitVerdict

variable {ε α β : Type} {x : Except ε α} {f : α → Except ε β} {b : β} {e : ε}

theorem bind_eq_ok (hbind : (x >>= f) = .ok b) : ∃ a, x = .ok a ∧ f a = .ok b := by
  cases x with
  | error e => cases hbind
  | ok a => exact ⟨a, rfl, hbind⟩

theorem bind_eq_error_iff : (x >>= f) = .error e ↔ x = .error e ∨ ∃ a, x = .ok a ∧ f a = .error e := by
  cases x with
  | error e' =>
    have hbind : ((Except.error e' : Except ε α) >>= f) = .error e' := rfl
    simp [hbind]
  | ok a =>
    have hbind : ((Except.ok a : Except ε α) >>= f) = f a := rfl
    simp [hbind]

theorem map_eq_ok_iff {f : α → β} : x.map f = .ok b ↔ ∃ a, x = .ok a ∧ f a = b := by
  cases x <;> simp [Except.map]

theorem map_eq_error_iff {f : α → β} : x.map f = .error e ↔ x = .error e := by
  cases x <;> simp [Except.map]

/-- The error of a list of steps is that of one of them. -/
theorem exists_of_forM_eq_error {l : List α} {f : α → Except ε Unit} (hall : l.forM f = .error e) :
    ∃ a ∈ l, f a = .error e := by
  induction l with
  | nil => cases hall
  | cons a rest ih =>
    rcases bind_eq_error_iff.mp hall with hfirst | ⟨-, -, hrest⟩
    · exact ⟨a, List.mem_cons_self, hfirst⟩
    · obtain ⟨a', hmem, herror⟩ := ih hrest
      exact ⟨a', List.mem_cons_of_mem _ hmem, herror⟩

end CommitVerdict
