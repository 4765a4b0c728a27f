import CommitVerdict.Proofs.Json.Lexemes

namespace CommitVerdict

namespace Json

/-- What holds of a document if it holds of its items and of the values of its fields holds of all. -/
theorem induction {P : Json → Prop} (null : P .null) (bool : ∀ b, P (.bool b))
    (number : ∀ n, P (.number n)) (string : ∀ s, P (.string s))
    (array : ∀ items, (∀ item ∈ items, P item) → P (.array items))
    (object : ∀ fields, (∀ field ∈ fields, P field.2) → P (.object fields)) : ∀ j, P j
  | .null => null
  | .bool b => bool b
  | .number n => number n
  | .string s => string s
  | .array items =>
    array items fun item _ => induction null bool number string array object item
  | .object fields =>
    object fields fun field _ => induction null bool number string array object field.2
termination_by j => sizeOf j
decreasing_by
  · have := List.sizeOf_lt_of_mem ‹item ∈ items›
    simp only [Json.array.sizeOf_spec]
    omega
  · have := List.sizeOf_lt_of_mem ‹field ∈ fields›
    have : sizeOf field = 1 + sizeOf field.1 + sizeOf field.2 := rfl
    simp only [Json.object.sizeOf_spec]
    omega

/-- Only blanks. -/
def Blank (cs : List Char) : Prop := ∀ c ∈ cs, isSpace c = true

theorem blank_nil : Blank [] := nofun

/-- A layout sets tokens apart by blanks only. -/
structure Layout.Spaced (layout : Layout) : Prop where
  line : ∀ depth, Blank (layout.line depth)
  gap : Blank layout.gap

theorem Layout.spaced_compact : Layout.compact.Spaced := ⟨fun _ => nofun, nofun⟩

theorem Layout.spaced_pretty : Layout.pretty.Spaced where
  line depth c hmem := by
    rcases List.mem_cons.mp hmem with rfl | hspace
    · rfl
    · rw [List.eq_of_mem_replicate hspace]
      rfl
  gap c hmem := by
    rw [List.mem_singleton.mp hmem]
    rfl

theorem skipSpace_append {ws : List Char} (hblank : Blank ws) (cs : List Char) :
    skipSpace (ws ++ cs) = skipSpace cs := List.dropWhile_append_of_pos hblank

theorem skipSpace_cons {c : Char} (hc : isSpace c = false) (cs : List Char) :
    skipSpace (c :: cs) = c :: cs := List.dropWhile_cons_of_neg (by simp [hc])

/-- Blanks do not go on with a number. -/
theorem Blank.numberEnds_append {ws cs : List Char} (hblank : Blank ws) (hends : NumberEnds cs) :
    NumberEnds (ws ++ cs) := by
  cases ws with
  | nil => exact hends
  | cons d ws =>
    rintro _ ⟨⟩
    have hspace := hblank d List.mem_cons_self
    simp only [isSpace, Bool.or_eq_true, beq_iff_eq] at hspace
    rcases hspace with ((rfl | rfl) | rfl) | rfl <;> decide

/-- Blanks, and the signs that end an item, do not go on with a number. -/
theorem numberEnds_append {ws : List Char} (hblank : Blank ws) {c : Char} (hc : c ∈ [',', ']', '\x7d'])
    (cs : List Char) : NumberEnds (ws ++ c :: cs) := by
  have hsigns : ∀ d ∈ [',', ']', '\x7d'], d.isDigit = false ∧ d ∉ ['.', 'e', 'E'] := by simp
  refine hblank.numberEnds_append ?_
  rintro _ ⟨⟩
  exact hsigns c hc

/-- The text begins as that of a value does, not with a blank and not with a closing bracket. -/
def Opens (cs : List Char) : Prop :=
  ∃ c rest, cs = c :: rest ∧ isSpace c = false ∧ c ≠ ']' ∧ c ≠ '\x7d'

theorem Opens.append {cs : List Char} (hopens : Opens cs) (rest : List Char) : Opens (cs ++ rest) := by
  obtain ⟨c, tail, rfl, hc⟩ := hopens
  exact ⟨c, tail ++ rest, rfl, hc⟩

theorem Opens.skipSpace_eq {cs : List Char} (hopens : Opens cs) : skipSpace cs = cs := by
  obtain ⟨c, tail, rfl, hspace, -⟩ := hopens
  exact skipSpace_cons hspace tail

theorem chars_opens (layout : Layout) (depth : Nat) (j : Json) : Opens (j.chars layout depth) := by
  cases j with
  | null => exact ⟨'n', _, rfl, by decide⟩
  | bool b => cases b <;> exact ⟨_, _, rfl, by decide⟩
  | number n =>
    obtain ⟨c, cs, hchars, hc⟩ := chars_number n
    refine ⟨c, cs, hchars, ?_⟩
    rcases hc with rfl | hdigit
    · decide
    · refine ⟨?_, ?_, ?_⟩
      · by_contra hspace
        simp only [isSpace, Bool.not_eq_false, Bool.or_eq_true, beq_iff_eq] at hspace
        rcases hspace with ((rfl | rfl) | rfl) | rfl <;> cases hdigit
      · rintro rfl
        cases hdigit
      · rintro rfl
        cases hdigit
  | string s => exact ⟨'"', _, rfl, by decide⟩
  | array items => cases items <;> exact ⟨'[', _, rfl, by decide⟩
  | object fields => cases fields <;> exact ⟨'\x7b', _, rfl, by decide⟩

variable {layout : Layout}

/-- A document is read back from its text, with enough fuel, whatever follows that does not go on with it. -/
def Reads (layout : Layout) (j : Json) : Prop :=
  ∀ depth fuel rest, NumberEnds rest → 2 * (j.chars layout depth).length ≤ fuel + 1 →
    readValue fuel (j.chars layout depth ++ rest) = some (j, rest)

theorem readValue_number (fuel : Nat) (n : NumberLiteral) (rest : List Char) :
    readValue (fuel + 1) (n.chars ++ rest) =
      (readNumber (n.chars ++ rest)).map fun read => (.number read.1, read.2) := by
  obtain ⟨c, cs, hchars, hc⟩ := chars_number n
  have hne : c ∉ ['n', 't', 'f', '"', '[', '\x7b'] := by
    rintro hmem
    rcases hc with rfl | hdigit
    · revert hmem
      decide
    · simp only [List.mem_cons, List.not_mem_nil, or_false] at hmem
      rcases hmem with rfl | rfl | rfl | rfl | rfl | rfl <;> cases hdigit
  simp only [List.mem_cons, List.not_mem_nil, or_false, not_or] at hne
  rw [hchars, List.cons_append, readValue]
  all_goals simp [hne]

theorem Reads.item {item : Json} (hreads : Reads layout item) {depth fuel : Nat} {ws cs : List Char}
    (hblank : Blank ws) {c : Char} (hc : c ∈ [',', ']', '\x7d'])
    (hfuel : 2 * (item.chars layout depth).length ≤ fuel + 1) :
    readValue fuel (item.chars layout depth ++ (ws ++ c :: cs)) = some (item, ws ++ c :: cs) :=
  hreads depth fuel _ (numberEnds_append hblank hc cs) hfuel

theorem chars_length_pos (layout : Layout) (depth : Nat) (j : Json) : 0 < (j.chars layout depth).length := by
  obtain ⟨c, cs, hchars, -⟩ := chars_opens layout depth j
  rw [hchars]
  exact Nat.succ_pos _

/-- The items of an array are read back, up to and with its closing bracket. -/
theorem readItems_append (hspaced : layout.Spaced) {ws : List Char} (hblank : Blank ws) {depth : Nat}
    {rest : List Char} {item : Json} {more : List Json} (hreads : ∀ j ∈ item :: more, Reads layout j)
    {fuel : Nat}
    (hfuel : 2 * (item.chars layout depth ++ itemChars layout depth more).length ≤ fuel) :
    readItems fuel (item.chars layout depth ++ (itemChars layout depth more ++ (ws ++ ']' :: rest))) =
      some (item :: more, rest) := by
  induction more generalizing item fuel with
  | nil =>
    have hpos := chars_length_pos layout depth item
    rw [itemChars, List.append_nil] at hfuel
    obtain ⟨fuel, rfl⟩ : ∃ f, fuel = f + 1 := ⟨fuel - 1, by omega⟩
    have hitem : readValue fuel (item.chars layout depth ++ (ws ++ ']' :: rest)) =
        some (item, ws ++ ']' :: rest) :=
      (hreads item List.mem_cons_self).item hblank (by decide) (by omega)
    rw [itemChars, List.nil_append, readItems, hitem]
    simp only [bind, Option.bind, skipSpace_append hblank, skipSpace_cons (c := ']') rfl]
  | cons next more ih =>
    have hpos := chars_length_pos layout depth item
    simp only [itemChars, List.length_append, List.length_cons] at hfuel
    obtain ⟨fuel, rfl⟩ : ∃ f, fuel = f + 1 := ⟨fuel - 1, by omega⟩
    have hnext : readItems fuel (next.chars layout depth ++
        (itemChars layout depth more ++ (ws ++ ']' :: rest))) = some (next :: more, rest) :=
      ih (fun j hj => hreads j (List.mem_cons_of_mem _ hj)) (by rw [List.length_append]; omega)
    let tail := layout.line depth ++ (next.chars layout depth ++
      (itemChars layout depth more ++ (ws ++ ']' :: rest)))
    have hitem : readValue fuel (item.chars layout depth ++ ',' :: tail) = some (item, ',' :: tail) :=
      (hreads item List.mem_cons_self).item blank_nil (by decide) (by omega)
    have htail : skipSpace tail = next.chars layout depth ++
        (itemChars layout depth more ++ (ws ++ ']' :: rest)) := by
      rw [skipSpace_append (hspaced.line depth), (chars_opens layout depth next).append _ |>.skipSpace_eq]
    simp only [itemChars, List.append_assoc, List.cons_append]
    rw [readItems, hitem]
    simp only [bind, Option.bind, skipSpace_cons (c := ',') rfl, htail, hnext]

/-- The name, the colon and the value of a field. -/
def fieldText (layout : Layout) (depth : Nat) (field : String × Json) : List Char :=
  stringChars field.1 ++ ':' :: layout.gap ++ field.2.chars layout depth

section

variable {depth fuel : Nat} {field : String × Json} {fields : List (String × Json)} {cs rest : List Char}

theorem skipSpace_gap (hspaced : layout.Spaced) (depth : Nat) (j : Json) (cs : List Char) :
    skipSpace (layout.gap ++ (j.chars layout depth ++ cs)) = j.chars layout depth ++ cs := by
  rw [skipSpace_append hspaced.gap, ((chars_opens layout depth j).append cs).skipSpace_eq]

theorem readFields_last (hspaced : layout.Spaced)
    (hvalue : readValue fuel (field.2.chars layout depth ++ cs) = some (field.2, cs))
    (hclose : skipSpace cs = '\x7d' :: rest) :
    readFields (fuel + 1) (fieldText layout depth field ++ cs) = some ([field], rest) := by
  simp only [fieldText, stringChars, List.cons_append, List.append_assoc, List.nil_append]
  rw [readFields]
  simp only [readString_append, bind, Option.bind, skipSpace_cons (c := ':') rfl,
    skipSpace_gap hspaced, hvalue, hclose, String.ofList_toList]

theorem readFields_more (hspaced : layout.Spaced)
    (hvalue : readValue fuel (field.2.chars layout depth ++ cs) = some (field.2, cs)) {tail : List Char}
    (hcomma : skipSpace cs = ',' :: tail) (hmore : readFields fuel (skipSpace tail) = some (fields, rest)) :
    readFields (fuel + 1) (fieldText layout depth field ++ cs) = some (field :: fields, rest) := by
  simp only [fieldText, stringChars, List.cons_append, List.append_assoc, List.nil_append]
  rw [readFields]
  simp only [readString_append, bind, Option.bind, skipSpace_cons (c := ':') rfl,
    skipSpace_gap hspaced, hvalue, hcomma, hmore, String.ofList_toList]

end

theorem fieldText_opens (layout : Layout) (depth : Nat) (field : String × Json) :
    Opens (fieldText layout depth field) := ⟨'"', _, rfl, by decide⟩

/-- The fields of an object are read back, up to and with its closing brace. -/
theorem readFields_append (hspaced : layout.Spaced) {ws : List Char} (hblank : Blank ws) {depth : Nat}
    {rest : List Char} {field : String × Json} {more : List (String × Json)}
    (hreads : ∀ f ∈ field :: more, Reads layout f.2) {fuel : Nat}
    (hfuel : 2 * (fieldText layout depth field ++ fieldChars layout depth more).length ≤ fuel) :
    readFields fuel (fieldText layout depth field ++ (fieldChars layout depth more ++ (ws ++ '\x7d' :: rest))) =
      some (field :: more, rest) := by
  have hlength : (fieldText layout depth field).length =
      (stringChars field.1).length + layout.gap.length + 1 + (field.2.chars layout depth).length := by
    simp only [fieldText, List.length_append, List.length_cons]
    omega
  induction more generalizing field fuel with
  | nil =>
    rw [fieldChars, List.append_nil] at hfuel
    obtain ⟨fuel, rfl⟩ : ∃ f, fuel = f + 1 := ⟨fuel - 1, by omega⟩
    have hvalue : readValue fuel (field.2.chars layout depth ++ (ws ++ '\x7d' :: rest)) =
        some (field.2, ws ++ '\x7d' :: rest) :=
      (hreads field List.mem_cons_self).item hblank (by decide) (by omega)
    rw [fieldChars, List.nil_append]
    refine readFields_last hspaced hvalue ?_
    rw [skipSpace_append hblank, skipSpace_cons (c := '\x7d') rfl]
  | cons next more ih =>
    simp only [fieldChars, List.length_append, List.length_cons] at hfuel
    obtain ⟨fuel, rfl⟩ : ∃ f, fuel = f + 1 := ⟨fuel - 1, by omega⟩
    let tail := layout.line depth ++ (fieldText layout depth next ++
      (fieldChars layout depth more ++ (ws ++ '\x7d' :: rest)))
    have hnext : readFields fuel (fieldText layout depth next ++
        (fieldChars layout depth more ++ (ws ++ '\x7d' :: rest))) = some (next :: more, rest) := by
      refine ih (fun f hf => hreads f (List.mem_cons_of_mem _ hf)) ?_ ?_
      · simp only [fieldText, List.length_append, List.length_cons]
        omega
      · simp only [fieldText, List.length_append, List.length_cons]
        omega
    have hvalue : readValue fuel (field.2.chars layout depth ++ ',' :: tail) = some (field.2, ',' :: tail) :=
      (hreads field List.mem_cons_self).item blank_nil (by decide) (by omega)
    have htail : skipSpace tail = fieldText layout depth next ++
        (fieldChars layout depth more ++ (ws ++ '\x7d' :: rest)) := by
      rw [skipSpace_append (hspaced.line depth), (fieldText_opens layout depth next).append _ |>.skipSpace_eq]
    have htext : fieldChars layout depth (next :: more) ++ (ws ++ '\x7d' :: rest) = ',' :: tail := by
      simp only [fieldChars, tail, fieldText, List.append_assoc, List.cons_append]
    rw [htext]
    exact readFields_more hspaced hvalue (skipSpace_cons rfl tail) (htail ▸ hnext)

theorem readValue_array {fuel : Nat} {ws cs : List Char} (hblank : Blank ws) (hopens : Opens cs) :
    readValue (fuel + 1) ('[' :: (ws ++ cs)) =
      (readItems fuel cs).map fun read => (.array read.1, read.2) := by
  rw [readValue, skipSpace_append hblank, hopens.skipSpace_eq]
  obtain ⟨c, tail, rfl, -, hbracket, -⟩ := hopens
  split
  · exact absurd (List.cons.inj ‹_›).1 hbracket
  · rfl

theorem readValue_object {fuel : Nat} {ws cs : List Char} (hblank : Blank ws) (hopens : Opens cs) :
    readValue (fuel + 1) ('\x7b' :: (ws ++ cs)) =
      (readFields fuel cs).map fun read => (.object read.1, read.2) := by
  rw [readValue, skipSpace_append hblank, hopens.skipSpace_eq]
  obtain ⟨c, tail, rfl, -, -, hbrace⟩ := hopens
  split
  · exact absurd (List.cons.inj ‹_›).1 hbrace
  · rfl

/-- No text is empty, so its length always leaves fuel for one step. -/
theorem Reads.of_step {j : Json} (hstep : ∀ depth fuel rest, NumberEnds rest →
      2 * (j.chars layout depth).length ≤ fuel + 2 →
      readValue (fuel + 1) (j.chars layout depth ++ rest) = some (j, rest)) : Reads layout j := by
  intro depth fuel rest hends hfuel
  have hpos := chars_length_pos layout depth j
  obtain ⟨fuel, rfl⟩ : ∃ f, fuel = f + 1 := ⟨fuel - 1, by omega⟩
  exact hstep depth fuel rest hends hfuel

/-- Every document is read back. -/
theorem reads (hspaced : layout.Spaced) (j : Json) : Reads layout j := by
  induction j using induction with
  | null => exact .of_step fun _ _ _ _ _ => rfl
  | bool b => exact .of_step fun _ _ _ _ _ => by cases b <;> rfl
  | number n =>
    refine .of_step fun depth fuel rest hends _ => ?_
    rw [chars, readValue_number, readNumber_append n hends]
    rfl
  | string s =>
    refine .of_step fun depth fuel rest _ _ => ?_
    simp only [chars, stringChars, List.cons_append, List.append_assoc, List.nil_append]
    rw [readValue]
    simp only [readString_append, Option.map_some, String.ofList_toList]
  | array items ih =>
    refine .of_step fun depth fuel rest _ hfuel => ?_
    cases items with
    | nil => rfl
    | cons item more =>
      simp only [chars, List.length_append, List.length_cons, List.length_nil] at hfuel
      have hitems : readItems fuel (item.chars layout (depth + 1) ++
          (itemChars layout (depth + 1) more ++ (layout.line depth ++ ']' :: rest))) =
            some (item :: more, rest) :=
        readItems_append hspaced (hspaced.line depth) ih (by rw [List.length_append]; omega)
      simp only [chars, List.cons_append, List.append_assoc, List.nil_append]
      rw [readValue_array (hspaced.line _) ((chars_opens layout (depth + 1) item).append _), hitems]
      rfl
  | object fields ih =>
    refine .of_step fun depth fuel rest _ hfuel => ?_
    cases fields with
    | nil => rfl
    | cons field more =>
      have htext : (object (field :: more)).chars layout depth ++ rest =
          '\x7b' :: (layout.line (depth + 1) ++ (fieldText layout (depth + 1) field ++
            (fieldChars layout (depth + 1) more ++ (layout.line depth ++ '\x7d' :: rest)))) := by
        simp only [chars, fieldText, List.cons_append, List.append_assoc, List.nil_append]
      have hlength := congrArg List.length htext
      simp only [List.length_append, List.length_cons] at hlength
      have hfields : readFields fuel (fieldText layout (depth + 1) field ++
          (fieldChars layout (depth + 1) more ++ (layout.line depth ++ '\x7d' :: rest))) =
            some (field :: more, rest) :=
        readFields_append hspaced (hspaced.line depth) ih (by rw [List.length_append]; omega)
      rw [htext, readValue_object (hspaced.line _) ((fieldText_opens layout (depth + 1) field).append _),
        hfields]
      rfl

/-- A document is the one that its text is read as, in every layout of blanks, and with blanks behind it. -/
theorem parse?_chars_append (hspaced : layout.Spaced) (j : Json) {ws : List Char} (hblank : Blank ws) :
    parse? (String.ofList (j.chars layout 0 ++ ws)) = some j := by
  have hends : NumberEnds ws := by
    rw [← List.append_nil ws]
    exact hblank.numberEnds_append nofun
  have hread := reads hspaced j 0 (2 * (j.chars layout 0 ++ ws).length + 1) ws hends (by
    rw [List.length_append]
    omega)
  have hbehind : skipSpace ws = [] := by
    rw [← List.append_nil ws, skipSpace_append hblank]
    rfl
  simp only [parse?, String.toList_ofList, ((chars_opens layout 0 j).append ws).skipSpace_eq, hread, hbehind]
  rfl

theorem parse?_compact (j : Json) : parse? j.compact = some j := by
  rw [compact, ← List.append_nil (j.chars .compact 0)]
  exact parse?_chars_append Layout.spaced_compact j blank_nil

theorem parse?_pretty_append (j : Json) {ws : String} (hblank : Blank ws.toList) :
    parse? (j.pretty ++ ws) = some j := by
  rw [pretty, ← String.ofList_toList (s := ws), ← String.ofList_append]
  exact parse?_chars_append Layout.spaced_pretty j hblank

theorem parse?_pretty (j : Json) : parse? j.pretty = some j := by
  rw [← String.append_empty (s := j.pretty)]
  exact parse?_pretty_append j blank_nil

/-- Nothing below the space, so no line end. -/
def Visible (cs : List Char) : Prop := ∀ c ∈ cs, 0x20 ≤ c.toNat

section Visible

variable {cs ds : List Char}

theorem Visible.append (hcs : Visible cs) (hds : Visible ds) : Visible (cs ++ ds) := fun c hmem =>
  (List.mem_append.mp hmem).elim (hcs c) (hds c)

theorem Visible.cons {c : Char} (hc : 0x20 ≤ c.toNat) (hcs : Visible cs) : Visible (c :: cs) :=
  List.forall_mem_cons.mpr ⟨hc, hcs⟩

theorem Visible.tail {c : Char} (hcs : Visible (c :: cs)) : Visible cs := fun d hmem =>
  hcs d (List.mem_cons_of_mem c hmem)

theorem visible_digits (hdigits : ∀ c ∈ cs, c.isDigit = true) : Visible cs := by
  intro c hmem
  have hdigit := hdigits c hmem
  simp only [Char.isDigit, Bool.and_eq_true, decide_eq_true_eq] at hdigit
  exact Nat.le_trans (by decide) (UInt32.le_iff_toNat_le.mp hdigit.1)

theorem visible_toDigits (n : Nat) : Visible (Nat.toDigits 10 n) :=
  visible_digits fun _ => Nat.isDigit_of_mem_toDigits (by decide) (by decide)

theorem visible_number (n : NumberLiteral) : Visible n.chars := by
  refine Visible.append (Visible.append (Visible.append ?_ (visible_toDigits n.whole)) ?_) ?_
  · split
    · exact .cons (by decide) nofun
    · exact nofun
  · split
    · exact nofun
    · exact .cons (by decide) (visible_digits n.fraction.isDigit)
  · cases n.exponent with
    | none => exact nofun
    | some e =>
      refine .cons (by decide) (.cons ?_ (visible_toDigits _))
      split <;> decide

theorem visible_stringChars (s : String) : Visible (stringChars s) := by
  refine .cons (by decide) (.append ?_ (.cons (by decide) nofun))
  intro c hmem
  obtain ⟨d, -, hd⟩ := List.mem_flatMap.mp hmem
  exact escapeChar_ge hd

theorem visible_itemChars {depth : Nat} {items : List Json}
    (hitems : ∀ item ∈ items, Visible (item.chars .compact depth)) :
    Visible (itemChars .compact depth items) := by
  induction items with
  | nil => exact nofun
  | cons item more ih =>
    have ⟨hitem, hmore⟩ := List.forall_mem_cons.mp hitems
    exact .cons (by decide) (.append hitem (ih hmore))

theorem visible_fieldChars {depth : Nat} {fields : List (String × Json)}
    (hfields : ∀ field ∈ fields, Visible (field.2.chars .compact depth)) :
    Visible (fieldChars .compact depth fields) := by
  induction fields with
  | nil => exact nofun
  | cons field more ih =>
    have ⟨hfield, hmore⟩ := List.forall_mem_cons.mp hfields
    have hname : Visible (stringChars field.1 ++ [':']) :=
      (visible_stringChars field.1).append (.cons (by decide) nofun)
    exact .cons (by decide) ((hname.append hfield).append (ih hmore))

/-- A document on one line has no line end in its strings either. -/
theorem visible_compact (j : Json) : ∀ depth, Visible (j.chars .compact depth) := by
  have hclosed : ∀ cs ∈ ["null".toList, boolChars false, boolChars true, ['[', ']'], ['\x7b', '\x7d']],
      ∀ c ∈ cs, 0x20 ≤ c.toNat := by simp [boolChars]
  induction j using induction with
  | null => exact fun _ => hclosed _ (by simp [chars])
  | bool b => exact fun _ => hclosed _ (by cases b <;> simp [chars])
  | number n => exact fun _ => visible_number n
  | string s => exact fun _ => visible_stringChars s
  | array items ih =>
    intro depth
    cases items with
    | nil => exact hclosed _ (by simp [chars])
    | cons item more =>
      have hitems := visible_itemChars fun item hmem => ih item hmem (depth + 1)
      exact .cons (by decide) (.append (.append hitems.tail nofun) (.cons (by decide) nofun))
  | object fields ih =>
    intro depth
    cases fields with
    | nil => exact hclosed _ (by simp [chars])
    | cons field more =>
      have hfields := visible_fieldChars fun field hmem => ih field hmem (depth + 1)
      refine .cons (by decide) (.append (.append ?_ nofun) (.cons (by decide) nofun))
      simpa [fieldChars] using hfields.tail

end Visible

end Json

end CommitVerdict
