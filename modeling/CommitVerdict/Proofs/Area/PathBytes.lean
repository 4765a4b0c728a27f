import CommitVerdict.Path
import CommitVerdict.Proofs.Text.Encoding

namespace CommitVerdict

/-- Whether one text is another one or goes on behind it with a slash. -/
def Bytes.Below (area text : Bytes) : Prop := area ++ [47] <+: text ++ [47]

namespace Bytes

theorem below_iff {area text : Bytes} : Below area text ↔ area = text ∨ area ++ [47] <+: text := by
  rw [Below, List.prefix_concat_iff, List.append_left_inj]

theorem Below.isPrefix {area text : Bytes} (hbelow : Below area text) : area <+: text := by
  rcases below_iff.mp hbelow with rfl | hbegins
  · exact List.prefix_refl _
  · exact (List.prefix_append _ _).trans hbegins

/-- The first slash of a text is where it is. -/
theorem split_slash {a b x y : Bytes} (ha : (47 : UInt8) ∉ a) (hb : (47 : UInt8) ∉ b)
    (heq : a ++ 47 :: x = b ++ 47 :: y) : a = b ∧ x = y := by
  induction a generalizing b with
  | nil =>
    cases b with
    | nil => exact ⟨rfl, (List.cons.inj heq).2⟩
    | cons c b => exact absurd ((List.cons.inj heq).1 ▸ List.mem_cons_self) hb
  | cons d a ih =>
    cases b with
    | nil => exact absurd ((List.cons.inj heq).1 ▸ List.mem_cons_self) ha
    | cons c b =>
      obtain ⟨rfl, htail⟩ := List.cons.inj heq
      obtain ⟨rfl, hrest⟩ := ih (List.not_mem_of_not_mem_cons ha) (List.not_mem_of_not_mem_cons hb) htail
      exact ⟨rfl, hrest⟩

end Bytes

namespace Path

/-- The bytes that patterns are matched against. -/
def bytes (p : Path) : Bytes := Utf8.encode p.toText

/-- Whether no name has a slash in it. -/
def Named (p : Path) : Prop := ∀ name ∈ p, '/' ∉ name.toList

theorem IsTrackable.named {p : Path} (htrackable : p.isTrackable = true) : p.Named := by
  intro name hname hslash
  simp only [isTrackable, Bool.and_eq_true, List.all_eq_true] at htrackable
  have hall := htrackable.2 name hname
  simp only [isTrackableName, Bool.and_eq_true, List.all_eq_true] at hall
  simpa using hall.1.1.1.2 '/' hslash

theorem IsTrackable.ne_nil {p : Path} (htrackable : p.isTrackable = true) : p ≠ [] := by
  rintro rfl
  simp [isTrackable] at htrackable

theorem isTrackable_of_isPrefix {area p : Path} (hne : area ≠ []) (hp : p.isTrackable = true)
    (hbelow : area <+: p) : area.isTrackable = true := by
  obtain ⟨rest, rfl⟩ := hbelow
  simp only [isTrackable, List.all_append, Bool.and_eq_true] at hp ⊢
  exact ⟨by simpa using hne, hp.2.1⟩

theorem bytes_singleton (name : String) : bytes [name] = Utf8.encode name := by
  rw [bytes, toText, String.intercalate_singleton]

theorem bytes_append {p q : Path} (hp : p ≠ []) (hq : q ≠ []) :
    bytes (p ++ q) = p.bytes ++ 47 :: q.bytes := by
  rw [bytes, toText, String.intercalate_append_of_ne_nil hp hq, Utf8.encode_append,
    Utf8.encode_append, List.append_assoc]
  rfl

/-- What lies below a path begins with its bytes and a slash. -/
theorem below_bytes_of_isPrefix {area p : Path} (hne : area ≠ []) (hbelow : area <+: p) :
    area.bytes.Below p.bytes := by
  obtain ⟨rest, rfl⟩ := hbelow
  rw [Bytes.below_iff]
  by_cases hrest : rest = []
  · exact .inl (by rw [hrest, List.append_nil])
  · refine .inr ⟨bytes rest, ?_⟩
    rw [bytes_append hne hrest, List.append_assoc]
    rfl

private theorem bytes_cons_slash (name : String) (p : Path) :
    bytes (name :: p) ++ [47] = Utf8.encode name ++ 47 :: if p = [] then [] else p.bytes ++ [47] := by
  by_cases hp : p = []
  · rw [if_pos hp, hp, bytes_singleton]
  · rw [if_neg hp, ← List.singleton_append, bytes_append (List.cons_ne_nil _ _) hp, bytes_singleton,
      List.append_assoc]
    rfl

theorem isPrefix_of_below_bytes {area p : Path} (harea : area.Named) (hp : p.Named) (hne : p ≠ [])
    (hbelow : area.bytes.Below p.bytes) : area <+: p := by
  have hslash {name : String} (hname : '/' ∉ name.toList) : (47 : UInt8) ∉ Utf8.encode name :=
    fun hmem => hname ((Utf8.mem_encodeChars_iff (d := '/') (by decide)).mp hmem)
  induction area generalizing p with
  | nil => exact List.nil_prefix
  | cons a area ih =>
    obtain ⟨b, p, rfl⟩ := List.exists_cons_of_ne_nil hne
    obtain ⟨ha, harea⟩ := List.forall_mem_cons.mp harea
    obtain ⟨hb, hp⟩ := List.forall_mem_cons.mp hp
    obtain ⟨rest, hrest⟩ := hbelow
    rw [bytes_cons_slash, bytes_cons_slash, List.append_assoc, List.cons_append] at hrest
    obtain ⟨hname, htail⟩ := Bytes.split_slash (hslash ha) (hslash hb) hrest
    rw [Utf8.encode_injective hname, List.prefix_cons_inj]
    by_cases hempty : area = []
    · exact hempty ▸ List.nil_prefix
    · rw [if_neg hempty] at htail
      by_cases hshort : p = []
      · simp [hshort] at htail
      · rw [if_neg hshort] at htail
        exact ih harea hp hshort ⟨rest, htail⟩

/-- A path lies below an area exactly if its bytes do. -/
theorem isPrefix_iff_below {area p : Path} (harea : area.isTrackable = true) (hp : p.isTrackable = true) :
    area <+: p ↔ area.bytes.Below p.bytes :=
  ⟨below_bytes_of_isPrefix (IsTrackable.ne_nil harea),
    isPrefix_of_below_bytes (IsTrackable.named harea) (IsTrackable.named hp) (IsTrackable.ne_nil hp)⟩

end Path

end CommitVerdict
