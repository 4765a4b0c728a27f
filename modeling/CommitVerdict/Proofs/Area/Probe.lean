import CommitVerdict.Proofs.Area.Components

namespace CommitVerdict

namespace Path

/-- A character that none of the names that cannot be tracked has keeps a name from being one. -/
theorem isTrackableName_of_mem {name : String} {d : Char} (hmem : d ∈ name.toList)
    (hd : d.toLower ∉ ['.', 'g', 'i', 't']) (hd' : d ≠ '.')
    (hall : ∀ c ∈ name.toList, c ≠ '/' ∧ c ≠ '\x00') : isTrackableName name = true := by
  have hnotin (l : List Char) (hl : d ∉ l) : name.toList ≠ l := fun heq => hl (heq ▸ hmem)
  have hlower : name.toList.map Char.toLower ≠ ['.', 'g', 'i', 't'] :=
    fun heq => hd (heq ▸ List.mem_map_of_mem hmem)
  have hchars : name.toList.all (fun c => c != '/' && c != '\x00') = true := by
    simpa [List.all_eq_true] using hall
  simp [isTrackableName, hchars, hlower, hnotin ['.'] (by simpa using hd'),
    hnotin ['.', '.'] (by simpa using hd'), List.ne_nil_of_mem hmem]

theorem isTrackableName_chars {name : String} (htrackable : isTrackableName name = true) :
    ∀ c ∈ name.toList, c ≠ '/' ∧ c ≠ '\x00' := by
  simp only [isTrackableName, Bool.and_eq_true, List.all_eq_true, bne_iff_ne] at htrackable
  exact htrackable.1.1.1.2

theorem isTrackable_append {p q : Path} (hp : p.isTrackable = true) (hq : q.isTrackable = true) :
    isTrackable (p ++ q) = true := by
  simp only [isTrackable, List.all_append, Bool.and_eq_true] at *
  refine ⟨?_, hp.2, hq.2⟩
  cases p with
  | nil => exact hq.1
  | cons name p => rfl

theorem isTrackable_concat_iff {front : Path} {name : String} :
    isTrackable (front ++ [name]) = true ↔ (∀ n ∈ front, isTrackableName n = true) ∧
      isTrackableName name = true := by
  simp [isTrackable]

/-- A name that stands for nothing in particular. -/
def filler (n : Nat) : String := String.ofList (List.replicate n 'x')

theorem encode_filler (n : Nat) : Utf8.encode (filler n) = List.replicate n 120 := by
  rw [Utf8.encode, filler, String.toList_ofList, Utf8.encodeChars_replicate (by decide)]
  rfl

theorem isTrackableName_append_filler (name : String) (n : Nat)
    (hchars : ∀ c ∈ name.toList, c ≠ '/' ∧ c ≠ '\x00') :
    isTrackableName (name ++ filler (n + 1)) = true := by
  have htoList : (name ++ filler (n + 1)).toList = name.toList ++ List.replicate (n + 1) 'x' := by
    rw [String.toList_append, filler, String.toList_ofList]
  refine isTrackableName_of_mem (d := 'x') ?_ (by decide) (by decide) ?_
  · rw [htoList]
    exact List.mem_append_right _ (List.mem_replicate.mpr ⟨n.succ_ne_zero, rfl⟩)
  · rw [htoList]
    intro c hc
    rcases List.mem_append.mp hc with hc | hc
    · exact hchars c hc
    · rw [List.eq_of_mem_replicate hc]
      decide

/-- A file below a path. -/
def below (p : Path) (n : Nat) : Path := p ++ [filler (n + 1)]

/-- A path beside another one that begins with its text. -/
def beside (p : Path) (n : Nat) : Path := p.dropLast ++ [p.getLast?.getD "" ++ filler (n + 1)]

variable {p : Path}

theorem isTrackable_below (htrackable : p.isTrackable = true) (n : Nat) :
    (p.below n).isTrackable = true := by
  have hname : isTrackableName (filler (n + 1)) = true := by
    simpa using isTrackableName_append_filler "" n (by simp)
  exact isTrackable_append htrackable (by simpa [isTrackable] using hname)

theorem bytes_below (hne : p ≠ []) (n : Nat) :
    (p.below n).bytes = p.bytes ++ 47 :: List.replicate (n + 1) 120 := by
  rw [below, bytes_append hne (List.cons_ne_nil _ _), bytes_singleton, encode_filler]

theorem isTrackable_beside (htrackable : p.isTrackable = true) (n : Nat) :
    (p.beside n).isTrackable = true := by
  obtain rfl | ⟨front, last, rfl⟩ := p.eq_nil_or_concat'
  · simp [isTrackable] at htrackable
  · obtain ⟨hfront, hlast⟩ := isTrackable_concat_iff.mp htrackable
    rw [beside, List.dropLast_concat, List.getLast?_concat, Option.getD_some]
    exact isTrackable_concat_iff.mpr
      ⟨hfront, isTrackableName_append_filler last n (isTrackableName_chars hlast)⟩

/-- The bytes of a path end with those of its last name, behind a slash if there are others. -/
theorem bytes_concat (front : Path) :
    ∃ start : Bytes, (start = [] ∨ ∃ more, start = more ++ [47]) ∧
      ∀ name, bytes (front ++ [name]) = start ++ Utf8.encode name := by
  obtain rfl | hfront := eq_or_ne front []
  · exact ⟨[], .inl rfl, fun name => by rw [List.nil_append, List.nil_append, bytes_singleton]⟩
  · refine ⟨front.bytes ++ [47], .inr ⟨_, rfl⟩, fun name => ?_⟩
    rw [bytes_append hfront (List.cons_ne_nil _ _), bytes_singleton, List.append_assoc]
    rfl

theorem bytes_beside (hne : p ≠ []) (n : Nat) :
    (p.beside n).bytes = p.bytes ++ List.replicate (n + 1) 120 := by
  obtain rfl | ⟨front, last, rfl⟩ := p.eq_nil_or_concat'
  · exact absurd rfl hne
  · obtain ⟨start, -, hstart⟩ := bytes_concat front
    rw [beside, List.dropLast_concat, List.getLast?_concat, Option.getD_some, hstart, hstart,
      Utf8.encode_append, encode_filler, List.append_assoc]

/-- A path with fewer backslashes at its end, but with one at least. -/
theorem exists_fewer_backslashes (htrackable : p.isTrackable = true) {literal : Bytes} {n m : Nat}
    (hbytes : p.bytes = literal ++ List.replicate n 92) (hm : 0 < m) :
    ∃ q : Path, q.isTrackable = true ∧ q.bytes = literal ++ List.replicate m 92 := by
  obtain rfl | ⟨front, last, rfl⟩ := p.eq_nil_or_concat'
  · simp [isTrackable] at htrackable
  obtain ⟨start, hstart, hconcat⟩ := bytes_concat front
  rw [hconcat] at hbytes
  obtain ⟨tail, hlast, hliteral⟩ : ∃ tail, Utf8.encode last = tail ++ List.replicate n 92 ∧
      literal = start ++ tail := by
    rcases List.append_eq_append_iff.mp hbytes with ⟨tail, hliteral, hlast⟩ | ⟨tail, htail, hrun⟩
    · exact ⟨tail, hlast, hliteral⟩
    · obtain rfl : tail = [] := by
        rcases hstart with rfl | ⟨more, rfl⟩
        · exact (List.append_eq_nil_iff.mp htail.symm).2
        -- a run of backslashes does not reach back over the last slash
        · by_contra hne
          obtain ⟨tail, b, rfl⟩ := tail.eq_nil_or_concat'.resolve_left hne
          rw [← List.append_assoc] at htail
          obtain rfl : 47 = b := List.singleton_inj.mp (List.append_inj' htail rfl).2
          have hmem : (47 : UInt8) ∈ List.replicate n 92 := by
            rw [hrun]
            exact List.mem_append_left _ (List.mem_append_right _ (List.mem_singleton_self _))
          exact absurd (List.eq_of_mem_replicate hmem) (by decide)
      rw [List.nil_append] at hrun
      exact ⟨[], hrun.symm, by rw [htail, List.append_nil, List.append_nil]⟩
  obtain ⟨cs, hcs, hencode⟩ := Utf8.exists_replicate_of_encodeChars (d := '\\') (by decide) hlast
  obtain ⟨hfront, hname⟩ := isTrackable_concat_iff.mp htrackable
  have hchars := isTrackableName_chars hname
  refine ⟨front ++ [String.ofList (cs ++ List.replicate m '\\')],
    isTrackable_concat_iff.mpr ⟨hfront, ?_⟩, ?_⟩
  · refine isTrackableName_of_mem (d := '\\') ?_ (by decide) (by decide) ?_
    · rw [String.toList_ofList]
      exact List.mem_append_right _ (List.mem_replicate.mpr ⟨Nat.ne_of_gt hm, rfl⟩)
    · rw [String.toList_ofList]
      intro c hc
      rcases List.mem_append.mp hc with hc | hc
      · exact hchars c (hcs ▸ List.mem_append_left _ hc)
      · rw [List.eq_of_mem_replicate hc]
        decide
  · rw [hconcat, hliteral, List.append_assoc, Utf8.encode, String.toList_ofList,
      Utf8.encodeChars_append, hencode, Utf8.encodeChars_replicate (by decide)]
    rfl

end Path

end CommitVerdict
