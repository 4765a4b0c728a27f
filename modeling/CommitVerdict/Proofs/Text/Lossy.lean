import CommitVerdict.Proofs.Text.Encoding
import CommitVerdict.Proofs.Text.Lines

namespace CommitVerdict

namespace Utf8

variable {q : State} {p : Pending} {b : UInt8} {bs : Bytes} {c : Char}

/-- What is true of every started character: no byte below 128 continues it, and its bits exceed those of
every character below 128 once a single byte is owed. -/
structure Pending.Sound (p : Pending) : Prop where
  low_ge : 0x80 ≤ p.low.toNat
  high_le : p.high.toNat ≤ 0xBF
  bits_ge : p.owed ≤ 1 → 2 ≤ p.bits
  /-- No character is written longer than it has to be. -/
  low_ge_of_bits : p.bits = 0 → 0x90 ≤ p.low.toNat

def State.Sound (q : State) : Prop := ∀ p, q = some p → p.Sound

theorem State.sound_none : State.Sound none := nofun

/-- What a byte does. -/
inductive Takes (q : State) (b : UInt8) : State × List Char → Prop
  /-- It is a character by itself, and ends what stands in front of it. -/
  | ascii (hb : b.toNat < 0x80) : Takes q b (none, run q [] ++ [Char.ofNat b.toNat])
  /-- It is part of a character, or ends one. -/
  | part {next : State} {chars : List Char} (hb : 0x80 ≤ b.toNat) (hnext : next.Sound)
      (hchars : ∀ c ∈ chars, c.toNat = 0 ∨ 0x80 ≤ c.toNat) (hpart : chars = [] → next ≠ none) :
      Takes q b (next, chars)

theorem Takes.replaced (hb : 0x80 ≤ b.toNat) : Takes q b (none, [replacement]) := by
  refine .part hb State.sound_none ?_ (by simp)
  intro c hc
  rw [List.mem_singleton.mp hc]
  exact .inr (by decide)

theorem Takes.started (hb : 0x80 ≤ b.toNat) (hp : p.Sound) : Takes q b (some p, []) := by
  refine .part hb ?_ nofun fun _ => Option.some_ne_none p
  rintro _ ⟨⟩
  exact hp

theorem toNat_and_mask (b mask : UInt8) (width : Nat) (hmask : mask.toNat = 2 ^ width - 1) :
    (b &&& mask).toNat = b.toNat % 2 ^ width := by
  rw [UInt8.toNat_and, hmask, Nat.and_two_pow_sub_one_eq_mod]

theorem takes_start (b : UInt8) : Takes none b (start b) := by
  have h5 := toNat_and_mask b 0x1F 5 rfl
  have h4 := toNat_and_mask b 0x0F 4 rfl
  have h3 := toNat_and_mask b 0x07 3 rfl
  unfold start
  simp only [UInt8.lt_iff_toNat_lt, ← UInt8.toNat_inj, UInt8.reduceToNat]
  refine iteInduction .ascii fun hlow => ?_
  have hb : 0x80 ≤ b.toNat := Nat.le_of_not_lt hlow
  refine iteInduction (fun _ => .replaced hb) fun _ => ?_
  -- Seven ranges of bytes start a character, each with its own bounds for the next byte.
  iterate 7
    refine iteInduction (fun _ => ?_) fun _ => ?_
    · refine .started hb ⟨?_, ?_, ?_, ?_⟩ <;> dsimp only [UInt8.reduceToNat] <;> omega
  exact .replaced hb

theorem toNat_ofNat_ascii (hb : b.toNat < 0x80) : (Char.ofNat b.toNat).toNat = b.toNat := by
  have hvalid : b.toNat.isValidChar := .inl (Nat.lt_trans hb (by decide))
  rw [Char.ofNat, dif_pos hvalid]
  rfl

theorem toNat_ofNat_eq_zero_or_ge {n : Nat} (hn : 0x80 ≤ n) :
    (Char.ofNat n).toNat = 0 ∨ 0x80 ≤ (Char.ofNat n).toNat := by
  by_cases hvalid : n.isValidChar
  · rw [Char.ofNat, dif_pos hvalid]
    exact .inr hn
  · rw [Char.ofNat, dif_neg hvalid]
    exact .inl rfl

/-- The bits that a further byte makes of those of a started character. -/
def Pending.moreBits (p : Pending) (b : UInt8) : Nat := p.bits * 64 + (b &&& 0x3F).toNat

theorem Pending.Sound.two_le_moreBits (hp : p.Sound) (hlow : p.low ≤ b) (hhigh : b ≤ p.high) :
    2 ≤ p.moreBits b := by
  have hmask := toNat_and_mask b 0x3F 6 rfl
  have hlow' := UInt8.le_iff_toNat_le.mp hlow
  have hhigh' := UInt8.le_iff_toNat_le.mp hhigh
  have hge := hp.high_le
  unfold moreBits
  by_cases hbits : p.bits = 0
  · have hlowest := hp.low_ge_of_bits hbits
    omega
  · omega

theorem step_of_within (hlow : p.low ≤ b) (hhigh : b ≤ p.high) :
    step (some p) b = if p.owed ≤ 1 then (none, [Char.ofNat (p.moreBits b)])
      else (some ⟨p.owed - 1, 0x80, 0xBF, p.moreBits b⟩, []) := by
  rw [step, if_pos (by simp [hlow, hhigh])]
  rfl

theorem step_of_not_within (houtside : ¬ (p.low ≤ b ∧ b ≤ p.high)) :
    step (some p) b = ((start b).1, replacement :: (start b).2) := by
  rw [step, if_neg (by simpa using houtside)]

theorem Takes.afresh {taken : State × List Char} (htakes : Takes none b taken) :
    Takes (some p) b (taken.1, replacement :: taken.2) := by
  cases htakes with
  | ascii hb => exact .ascii hb
  | part hb hnext hchars hpart =>
    exact .part hb hnext (List.forall_mem_cons.mpr ⟨.inr (by decide), hchars⟩) nofun

theorem takes_step (hq : q.Sound) (b : UInt8) : Takes q b (step q b) := by
  cases q with
  | none => exact takes_start b
  | some p =>
    have hp := hq p rfl
    by_cases hwithin : p.low ≤ b ∧ b ≤ p.high
    · have hb : 0x80 ≤ b.toNat := Nat.le_trans hp.low_ge (UInt8.le_iff_toNat_le.mp hwithin.1)
      have hbits : 2 ≤ p.moreBits b := hp.two_le_moreBits hwithin.1 hwithin.2
      rw [step_of_within hwithin.1 hwithin.2]
      split
      · rename_i howed
        have hmore : 0x80 ≤ p.moreBits b := by
          have hge := hp.bits_ge howed
          unfold Pending.moreBits
          omega
        refine .part hb State.sound_none ?_ (by simp)
        exact List.forall_mem_singleton.mpr (toNat_ofNat_eq_zero_or_ge hmore)
      · refine .started hb ⟨Nat.le_refl 0x80, Nat.le_refl 0xBF, fun _ => hbits, fun hzero => ?_⟩
        exact absurd hzero (Nat.ne_of_gt (Nat.zero_lt_of_lt hbits))
    · rw [step_of_not_within hwithin]
      exact (takes_start b).afresh

theorem Takes.sound {taken : State × List Char} (htakes : Takes q b taken) : taken.1.Sound := by
  cases htakes with
  | ascii hb => exact State.sound_none
  | part hb hnext hchars hpart => exact hnext

theorem Takes.eq_of_ascii {taken : State × List Char} (htakes : Takes q b taken)
    (hb : b.toNat < 0x80) : taken = (none, run q [] ++ [Char.ofNat b.toNat]) := by
  cases htakes with
  | ascii hb => rfl
  | part hhigh hnext hchars hpart => exact absurd hb (Nat.not_lt.mpr hhigh)

theorem not_mem_run_nil (q : State) (hascii : c.toNat < 128) : c ∉ run q [] := by
  have hne : c ≠ replacement := by
    rintro rfl
    exact absurd hascii (by decide)
  cases q <;> simp [run, hne]

/-- A character below 128 is completed by its own byte only. -/
theorem Takes.cut {taken : State × List Char} (htakes : Takes q b taken) (hpos : 0 < c.toNat)
    (hascii : c.toNat < 128) {before more : List Char} (hchars : taken.2 = before ++ c :: more) :
    b = UInt8.ofNat c.toNat ∧ run q [] = before ∧ taken.1 = none ∧ more = [] := by
  have hc : c ∈ taken.2 := hchars ▸ List.mem_append_right _ List.mem_cons_self
  cases htakes with
  | ascii hb =>
    obtain rfl : c = Char.ofNat b.toNat :=
      List.mem_singleton.mp ((List.mem_append.mp hc).resolve_left (not_mem_run_nil q hascii))
    obtain ⟨hbefore, -, hmore⟩ :=
      (List.append_cons_inj_of_notMem (not_mem_run_nil q hascii) List.not_mem_nil).mp hchars
    exact ⟨by rw [toNat_ofNat_ascii hb, UInt8.ofNat_toNat], hbefore, rfl, hmore.symm⟩
  | part hb hnext hhigh hpart =>
    have hno := hhigh c hc
    omega

theorem Takes.ne_none_of_nil {taken : State × List Char} (htakes : Takes q b taken)
    (hchars : taken.2 = []) : taken.1 ≠ none := by
  cases htakes with
  | ascii hb => exact absurd hchars (by simp)
  | part hb hnext hhigh hpart => exact hpart hchars

/-- A byte below 128 cuts the decoding in two. -/
theorem run_append_ascii (hq : q.Sound) (hb : b.toNat < 0x80) (bs rest : Bytes) :
    run q (bs ++ b :: rest) = run q bs ++ Char.ofNat b.toNat :: run none rest := by
  induction bs generalizing q with
  | nil =>
    rw [List.nil_append, run, (takes_step hq b).eq_of_ascii hb]
    simp
  | cons first bs ih =>
    rw [List.cons_append, run, ih (takes_step hq first).sound, run, List.append_assoc]

/-- A character below 128 stands where its byte cuts the decoding in two. -/
theorem exists_of_run_eq (hq : q.Sound) (hpos : 0 < c.toNat) (hascii : c.toNat < 128)
    {before after : List Char} (hrun : run q bs = before ++ c :: after) :
    ∃ front rest, bs = front ++ UInt8.ofNat c.toNat :: rest ∧ run q front = before ∧
      run none rest = after := by
  induction bs generalizing q before with
  | nil =>
    have hc : c ∈ run q [] := hrun ▸ List.mem_append_right _ List.mem_cons_self
    exact absurd hc (not_mem_run_nil q hascii)
  | cons b bs ih =>
    have hwhere : (∃ more, before = (step q b).2 ++ more ∧ run (step q b).1 bs = more ++ c :: after) ∨
        ∃ more, (step q b).2 = before ++ c :: more ∧ after = more ++ run (step q b).1 bs := by
      rw [run, List.append_eq_append_iff] at hrun
      rcases hrun with hbehind | ⟨more, hchars, hmore⟩
      · exact .inl hbehind
      · cases more with
        | nil => exact .inl ⟨[], by simpa using hchars.symm, hmore.symm⟩
        | cons d more =>
          obtain ⟨rfl, hafter⟩ := List.cons.inj hmore
          exact .inr ⟨more, hchars, hafter⟩
    rcases hwhere with ⟨more, rfl, hmore⟩ | ⟨more, hchars, rfl⟩
    · obtain ⟨front, rest, rfl, rfl, rfl⟩ := ih (takes_step hq b).sound hmore
      exact ⟨b :: front, rest, rfl, by rw [run], rfl⟩
    · obtain ⟨rfl, hbefore, hnone, rfl⟩ := (takes_step hq b).cut hpos hascii hchars
      exact ⟨[], bs, rfl, hbefore, by rw [hnone]; rfl⟩

theorem run_eq_nil_iff (hq : q.Sound) : run q bs = [] ↔ q = none ∧ bs = [] := by
  induction bs generalizing q with
  | nil => cases q <;> simp [run]
  | cons b bs ih =>
    rw [run, List.append_eq_nil_iff, ih (takes_step hq b).sound]
    constructor
    · rintro ⟨hchars, hnone, -⟩
      exact absurd hnone ((takes_step hq b).ne_none_of_nil hchars)
    · rintro ⟨-, hbs⟩
      cases hbs

theorem decodeLossy_eq_nil_iff : decodeLossy bs = [] ↔ bs = [] := by
  rw [decodeLossy, run_eq_nil_iff State.sound_none, and_iff_right rfl]

theorem decodeLossy_append_ascii (hb : b.toNat < 0x80) (bs rest : Bytes) :
    decodeLossy (bs ++ b :: rest) = decodeLossy bs ++ Char.ofNat b.toNat :: decodeLossy rest :=
  run_append_ascii State.sound_none hb bs rest

theorem mem_of_mem_decodeLossy (hpos : 0 < c.toNat) (hascii : c.toNat < 128)
    (hc : c ∈ decodeLossy bs) : UInt8.ofNat c.toNat ∈ bs := by
  obtain ⟨before, after, hrun⟩ := List.append_of_mem hc
  obtain ⟨front, rest, rfl, -, -⟩ := exists_of_run_eq State.sound_none hpos hascii hrun
  exact List.mem_append_right _ List.mem_cons_self

/-- Whether a line has a carriage return at its end can be seen before it is decoded. -/
theorem decodeLossy_dropCarriage (line : Bytes) :
    decodeLossy (LineMarks.bytes.dropCarriage line) = LineMarks.chars.dropCarriage (decodeLossy line) := by
  unfold LineMarks.dropCarriage
  by_cases hlast : line.getLast? = some LineMarks.bytes.carriage
  · obtain ⟨front, rfl⟩ := List.getLast?_eq_some_iff.mp hlast
    have hdecode : decodeLossy (front ++ [LineMarks.bytes.carriage]) =
        decodeLossy front ++ [LineMarks.chars.carriage] := decodeLossy_append_ascii (by decide) front []
    rw [if_pos hlast, hdecode]
    simp
  · rw [if_neg hlast, if_neg]
    intro hchar
    obtain ⟨before, hrun⟩ := List.getLast?_eq_some_iff.mp hchar
    obtain ⟨front, rest, rfl, -, hrest⟩ :=
      exists_of_run_eq State.sound_none (by decide) (by decide) hrun
    obtain rfl := decodeLossy_eq_nil_iff.mp hrest
    exact hlast (by simp; rfl)

/-- The lines of a text are the decoded lines of its bytes. -/
theorem lines_decodeLossy (bs : Bytes) :
    LineMarks.chars.lines (decodeLossy bs) = (LineMarks.bytes.lines bs).map decodeLossy := by
  have hfeed {line : Bytes} (hline : LineMarks.bytes.feed ∉ line) :
      LineMarks.chars.feed ∉ decodeLossy line :=
    fun hchar => hline (mem_of_mem_decodeLossy (by decide) (by decide) hchar)
  induction bs using LineMarks.text_induction LineMarks.bytes with
  | unended line hline =>
    rw [LineMarks.lines_of_unended hline, LineMarks.lines_of_unended (hfeed hline)]
    by_cases hempty : line = []
    · subst hempty
      rfl
    · have hchars : decodeLossy line ≠ [] := fun heq => hempty (decodeLossy_eq_nil_iff.mp heq)
      simp [hempty, hchars]
  | ended line rest hline ih =>
    have hdecode : decodeLossy (line ++ LineMarks.bytes.feed :: rest) =
        decodeLossy line ++ LineMarks.chars.feed :: decodeLossy rest :=
      decodeLossy_append_ascii (by decide) line rest
    rw [hdecode, LineMarks.lines_append_feed hline, LineMarks.lines_append_feed (hfeed hline), ih,
      List.map_cons, decodeLossy_dropCarriage]

/-- It makes no difference whether bytes are decoded before or after they are cut into lines. -/
theorem textLines_text (bs : Bytes) : textLines (text bs) = (LineMarks.bytes.lines bs).map text := by
  rw [textLines, text, String.toList_ofList, lines_decodeLossy, List.map_map]
  rfl

end Utf8

end CommitVerdict
