import CommitVerdict.Locator
import CommitVerdict.Proofs.FileSystem.Canonical

namespace CommitVerdict

namespace Locator

open FileSystem

variable {fs : FileSystem} {start root p : Path}

/-- The search comes past a directory: it is among the first ten from the start upward. -/
structure Searched (start p : Path) : Prop where
  above : p <+: start
  near : start.length < p.length + 10

/-- The first directory from the start upward with an entry `.git`. -/
structure Nearest (fs : FileSystem) (start root : Path) : Prop where
  searched : Searched start root
  hasEntry : fs.HasEntry root ".git"
  first : ∀ p, root <+: p → p <+: start → fs.HasEntry p ".git" → p = root

theorem isMarked_iff : isMarked fs p = true ↔ fs.HasEntry p ".git" :=
  existsAt_iff_hasEntry (by decide) (by decide) (by decide)

section Ancestors

theorem length_ancestors (p : Path) : (ancestors p).length = p.length + 1 := by simp [ancestors]

theorem getElem_ancestors {i : Nat} (hi : i < (ancestors p).length) :
    (ancestors p)[i] = p.take (p.length - i) := by
  simp only [ancestors, List.getElem_reverse, List.getElem_map, List.length_map, List.length_range,
    List.getElem_range]
  rfl

/-- The directory at a position of the search. -/
theorem getElem_searched {i : Nat} (hi : i < ((ancestors start).take searchDepth).length) :
    ((ancestors start).take searchDepth)[i] = start.take (start.length - i) := by
  rw [List.getElem_take, getElem_ancestors]

theorem length_searched (start : Path) : ((ancestors start).take searchDepth).length = min 10 (start.length + 1) := by
  rw [List.length_take, length_ancestors]
  rfl

theorem mem_searched_iff : p ∈ (ancestors start).take searchDepth ↔ Searched start p := by
  rw [List.mem_iff_getElem]
  constructor
  · rintro ⟨i, hi, rfl⟩
    rw [getElem_searched]
    rw [length_searched] at hi
    refine ⟨List.take_prefix _ _, ?_⟩
    rw [List.length_take]
    omega
  · rintro ⟨habove, hnear⟩
    have hlength := habove.length_le
    refine ⟨start.length - p.length, by rw [length_searched]; omega, ?_⟩
    rw [getElem_searched, Nat.sub_sub_self hlength]
    exact (List.prefix_iff_eq_take.mp habove).symm

end Ancestors

theorem enclosing?_eq_none_iff : enclosing? fs start = none ↔ ∀ p, Searched start p → ¬fs.HasEntry p ".git" := by
  rw [enclosing?, List.find?_eq_none]
  simp only [mem_searched_iff, isMarked_iff]

theorem enclosing?_eq_some_iff : enclosing? fs start = some root ↔ Nearest fs start root := by
  rw [enclosing?, List.find?_eq_some_iff_getElem, isMarked_iff]
  constructor
  · rintro ⟨hentry, i, hi, rfl, hbefore⟩
    have hsearched := mem_searched_iff.mp (List.getElem_mem hi)
    rw [getElem_searched] at hentry hsearched ⊢
    refine ⟨hsearched, hentry, fun p hroot hp hmarked => ?_⟩
    have hlength := hp.length_le
    have hnot : ¬start.length - p.length < i := by
      intro hless
      have hunmarked := hbefore (start.length - p.length) hless
      rw [getElem_searched, Nat.sub_sub_self hlength, ← List.prefix_iff_eq_take.mp hp,
        isMarked_iff.mpr hmarked] at hunmarked
      cases hunmarked
    refine (hroot.eq_of_length_le ?_).symm
    rw [List.length_take]
    omega
  · rintro ⟨hsearched, hentry, hfirst⟩
    have hlength := hsearched.above.length_le
    have hnear := hsearched.near
    refine ⟨hentry, start.length - root.length, by rw [length_searched]; omega, ?_, fun j hj => ?_⟩
    · rw [getElem_searched, Nat.sub_sub_self hlength]
      exact (List.prefix_iff_eq_take.mp hsearched.above).symm
    · -- a directory that comes before lies strictly below
      rw [getElem_searched, Bool.not_eq_true', Bool.eq_false_iff, ne_eq, isMarked_iff]
      intro hmarked
      have hbelow : root <+: start.take (start.length - j) :=
        List.prefix_of_prefix_length_le hsearched.above (List.take_prefix _ _) (by rw [List.length_take]; omega)
      have hsame := congrArg List.length (hfirst _ hbelow (List.take_prefix _ _) hmarked)
      rw [List.length_take] at hsame
      omega

theorem locate_of_canonicalize {directory : Path} {text : String}
    (hfound : canonicalize fs directory text = .ok start) :
    locate fs directory text =
      (enclosing? fs start).elim (.error (.repositoryNotFound start.toAbsolute searchDepth)) .ok := by
  simp only [locate, hfound]
  cases enclosing? fs start <;> rfl

theorem locate_eq_ok_iff {directory : Path} {text : String}
    (hfound : canonicalize fs directory text = .ok start) :
    locate fs directory text = .ok root ↔ Nearest fs start root := by
  rw [locate_of_canonicalize hfound, ← enclosing?_eq_some_iff]
  cases enclosing? fs start <;> simp

/-- What is nearest to a start is nearest to every place between the two. -/
theorem Nearest.of_between (hnearest : Nearest fs start root) (hroot : root <+: p) (hp : p <+: start) :
    Nearest fs p root where
  searched := ⟨hroot, by have := hnearest.searched.near; have := hp.length_le; omega⟩
  hasEntry := hnearest.hasEntry
  first q hq hqp hmarked := hnearest.first q hq (hqp.trans hp) hmarked

/-- What the search from a place tells: the nearest repository, if it comes past one. -/
structure FindsNearest (fs : FileSystem) (start : Path) (answer : Except VerificationError Path) : Prop where
  found_iff : (∃ root, answer = .ok root) ↔ ∃ p, Searched start p ∧ fs.HasEntry p ".git"
  root_iff : ∀ root, answer = .ok root ↔ Nearest fs start root
  otherwise : (∀ root, answer ≠ .ok root) → answer = .error (.repositoryNotFound start.toAbsolute 10)
  same : ∀ directory text, canonicalize fs directory text = .ok start → locate fs directory text = answer
  between : ∀ root p : Path, answer = .ok root → root <+: p → p <+: start →
    ∀ directory text, canonicalize fs directory text = .ok p → locate fs directory text = .ok root
  /-- In particular the root is found from the root. -/
  again : fs.WellNamed → ∀ root p : Path, answer = .ok root → root <+: p → p <+: start →
    ∀ directory, locate fs directory p.toAbsolute = .ok root

/-- A start that leads to a place gives the first directory from there upward, of at most ten, that has an entry
`.git`, and the error that names the place if there is none. -/
theorem locate_findsNearest (fs : FileSystem) (directory : Path) (text : String) (start : Path)
    (hfound : canonicalize fs directory text = .ok start) :
    FindsNearest fs start (locate fs directory text) where
  found_iff := by
    rw [locate_of_canonicalize hfound]
    cases henclosing : enclosing? fs start with
    | none =>
      refine iff_of_false (by simp) ?_
      rintro ⟨p, hsearched, hentry⟩
      exact enclosing?_eq_none_iff.mp henclosing p hsearched hentry
    | some root =>
      have hnearest := enclosing?_eq_some_iff.mp henclosing
      exact iff_of_true ⟨root, rfl⟩ ⟨root, hnearest.searched, hnearest.hasEntry⟩
  root_iff root := locate_eq_ok_iff hfound
  otherwise hnone := by
    rw [locate_of_canonicalize hfound] at hnone ⊢
    cases henclosing : enclosing? fs start with
    | none => rfl
    | some root => exact absurd (by simp [henclosing]) (hnone root)
  same directory' text' hfound' := by
    rw [locate_of_canonicalize hfound, locate_of_canonicalize hfound']
  between root p hanswer hroot hp directory' text' hfound' :=
    (locate_eq_ok_iff hfound').mpr (((locate_eq_ok_iff hfound).mp hanswer).of_between hroot hp)
  again hnames root p hanswer hroot hp directory' := by
    have hplace := (isPlace_of_canonicalize hfound).of_isPrefix hp
    have hfound' := hplace.canonicalize_eq hnames directory'
    exact (locate_eq_ok_iff hfound').mpr (((locate_eq_ok_iff hfound).mp hanswer).of_between hroot hp)

/-- A worktree, whose `.git` is a file, with a directory in it. -/
def worktree : FileSystem :=
  Tree.ofLeaves [(["w", ".git"], .entry (.file [])), (["w", "src"], .emptyDirectory)]

theorem locate_findsNearest_worktree :
    worktree.WellNamed ∧ canonicalize worktree [] "/w/src" = .ok ["w", "src"] ∧
      FindsNearest worktree ["w", "src"] (locate worktree [] "/w/src") := by
  have hspells : Spells "/w/src" ["w", "src"] := by decide
  have hstraight : worktree.Straight (origin [] "/w/src") ["w", "src"] :=
    .cons (by decide) (.inr (by decide)) (.cons (by decide) (.inl rfl) .nil)
  have hfound : canonicalize worktree [] "/w/src" = .ok ["w", "src"] := by
    rw [hstraight.canonicalize_eq hspells]
    exact if_pos (by decide)
  exact ⟨by decide, hfound, locate_findsNearest worktree [] "/w/src" ["w", "src"] hfound⟩

end Locator

end CommitVerdict
