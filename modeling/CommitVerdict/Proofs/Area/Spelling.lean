import CommitVerdict.Proofs.Area.Agreement

namespace CommitVerdict

/-- Whether there can be a file in a directory. -/
def Path.CanHold (directory : Path) : Prop := ∃ p : Path, p.isTrackable = true ∧ directory <+: p

namespace PathText

/-- Two texts that spell the same directory, seen from the root of a repository. -/
structure SameDirectory (s t : String) : Prop where
  left_relative : isAbsolute s = false
  right_relative : isAbsolute t = false
  names_eq : names s = names t

variable {s t : String}

/-- A file lies below a text that begins with no lone dot, and whose names its path begins with. -/
theorem isBelow_iff_names (hrelative : isAbsolute s = false) {p : Path} (hp : p.isTrackable = true) :
    isBelow p.toText s = true ↔ ¬Dotted s ∧ names s <+: p := by
  rw [isBelow_toText_iff hp, components_of_relative hrelative]
  split
  · rename_i hdotted
    refine iff_of_false ?_ (fun h => h.1 hdotted)
    intro hbelow
    obtain ⟨rest, rfl⟩ := hbelow
    simp [Path.isTrackable, Path.isTrackableName] at hp
  · rename_i hplain
    exact (and_iff_right hplain).symm

/-- Files lie below two spellings of a directory alike if both begin with a lone dot, or none of them. -/
theorem SameDirectory.isBelow_eq_iff (hsame : SameDirectory s t) :
    (∀ p : Path, p.isTrackable = true → isBelow p.toText s = isBelow p.toText t) ↔
      (Path.CanHold (names s) → (Dotted s ↔ Dotted t)) := by
  have hs {p : Path} (hp : p.isTrackable = true) := isBelow_iff_names hsame.left_relative hp
  have ht {p : Path} (hp : p.isTrackable = true) := isBelow_iff_names hsame.right_relative hp
  constructor
  · intro halike hhold
    obtain ⟨p, hp, hbelow⟩ := hhold
    have hread : isBelow p.toText s = true ↔ isBelow p.toText t = true := by rw [halike p hp]
    rw [hs hp, ht hp, ← hsame.names_eq, and_iff_left hbelow, and_iff_left hbelow] at hread
    exact not_iff_not.mp hread
  · intro hdotted p hp
    rw [Bool.eq_iff_iff, hs hp, ht hp, ← hsame.names_eq]
    by_cases hbelow : names s <+: p
    · rw [hdotted ⟨p, hp, hbelow⟩]
    · simp [hbelow]

/-- Some file lies below a text exactly if its directory can hold one and no lone dot is in front. -/
theorem exists_isBelow_iff (hrelative : isAbsolute s = false) :
    (∃ p : Path, p.isTrackable = true ∧ isBelow p.toText s = true) ↔
      ¬Dotted s ∧ Path.CanHold (names s) := by
  constructor
  · rintro ⟨p, hp, hbelow⟩
    obtain ⟨hdotted, hnames⟩ := (isBelow_iff_names hrelative hp).mp hbelow
    exact ⟨hdotted, p, hp, hnames⟩
  · rintro ⟨hdotted, p, hp, hnames⟩
    exact ⟨p, hp, (isBelow_iff_names hrelative hp).mpr ⟨hdotted, hnames⟩⟩

theorem notMem_of_mem_pieces {cs piece : List Char} (hpiece : piece ∈ pieces cs) : '/' ∉ piece := by
  induction cs generalizing piece with
  | nil => simp_all [pieces]
  | cons c cs ih =>
    by_cases hc : c = '/'
    · rw [hc, pieces_slash, List.mem_cons] at hpiece
      rcases hpiece with rfl | hpiece
      · exact List.not_mem_nil
      · exact ih hpiece
    · obtain ⟨first, more, hpieces⟩ := List.exists_cons_of_ne_nil (pieces_ne_nil cs)
      rw [hpieces] at ih
      rw [pieces_cons_of_ne hc hpieces, List.mem_cons] at hpiece
      rcases hpiece with rfl | hpiece
      · have hfirst := ih List.mem_cons_self
        simp [hfirst, Ne.symm hc]
      · exact ih (List.mem_cons_of_mem _ hpiece)

theorem exists_piece {cs : List Char} {c : Char} (hmem : c ∈ cs) (hc : c ≠ '/') :
    ∃ piece ∈ pieces cs, c ∈ piece := by
  induction cs with
  | nil => cases hmem
  | cons d cs ih =>
    obtain ⟨first, more, hpieces⟩ := List.exists_cons_of_ne_nil (pieces_ne_nil cs)
    rw [hpieces] at ih
    by_cases hd : d = '/'
    · obtain ⟨piece, hpiece, hmem⟩ := ih ((List.mem_cons.mp hmem).resolve_left (by rwa [hd]))
      rw [hd, pieces_slash, hpieces]
      exact ⟨piece, List.mem_cons_of_mem _ hpiece, hmem⟩
    · rw [pieces_cons_of_ne hd hpieces]
      rcases List.mem_cons.mp hmem with rfl | hmem
      · exact ⟨c :: first, List.mem_cons_self, List.mem_cons_self⟩
      · obtain ⟨piece, hpiece, hin⟩ := ih hmem
        rcases List.mem_cons.mp hpiece with rfl | hpiece
        · exact ⟨d :: piece, List.mem_cons_self, List.mem_cons_of_mem _ hin⟩
        · exact ⟨piece, List.mem_cons_of_mem _ hpiece, hin⟩

/-- A slash at the end spells nothing. -/
theorem names_concat_slash (s : String) : names (s ++ "/") = names s := by
  have hslash : (s ++ "/").toList = s.toList ++ ['/'] := String.toList_append
  rw [names, names, hslash, pieces_concat_slash, List.filter_append]
  simp [isName]

end PathText

end CommitVerdict
