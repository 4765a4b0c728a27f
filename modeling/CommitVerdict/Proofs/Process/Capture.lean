import CommitVerdict.Process.Capture
import CommitVerdict.Proofs.Process.Stream

namespace CommitVerdict

/-- The lines of what is sent through a stream. -/
def Transmission.lines (t : Transmission) : List String :=
  (LineMarks.bytes.ofPieces (t.bytes.splitOn LineMarks.bytes.feed)).map Utf8.text

namespace StreamReader

variable {r r' r'' : StreamReader} {delivered : List String}

theorem outstanding_start (t : Transmission) : (start t).outstanding = t.lines := by
  rw [outstanding, ahead_start, LineMarks.lines_eq_ofPieces, Transmission.lines]

/-- What a move of the loop does to one of its readers, with the lines that the reader delivers. -/
inductive Step : StreamReader → List String → StreamReader → Prop
  | idle (r : StreamReader) : Step r [] r
  | arrive (r : StreamReader) : Step r [] r.arrive
  | interrupt (r : StreamReader) : Step r [] r.interrupt
  | waits {r r' : StreamReader} (hopen : r.isOpen = true) (hnext : r.nextLine = (r', .waits)) :
      Step r [] r'
  | line {r r' : StreamReader} {text : String} (hopen : r.isOpen = true)
      (hnext : r.nextLine = (r', .line text)) : Step r [text] (r'.push text).interrupt
  | exhausted {r r' : StreamReader} (hopen : r.isOpen = true)
      (hnext : r.nextLine = (r', .exhausted)) : Step r [] r'.close.interrupt
  | fails {r r' : StreamReader} (hopen : r.isOpen = true) (hnext : r.nextLine = (r', .fails)) :
      Step r [] r'.close.interrupt

theorem outcome_of_nextLine {attempt : Attempt} (hnext : r.nextLine = (r', attempt)) :
    r.Outcome r' attempt := by
  have houtcome := r.nextLine_outcome
  rwa [hnext] at houtcome

theorem keeps_of_nextLine {attempt : Attempt} (hnext : r.nextLine = (r', attempt)) :
    ∃ arrived line, r' = { r with arrived := arrived, line := line } := by
  have hkeeps := r.nextLine_keeps
  rwa [hnext] at hkeeps

theorem Step.breaks_eq (hstep : Step r delivered r') : r'.breaks = r.breaks := by
  cases hstep with
  | idle | interrupt => rfl
  | arrive =>
    obtain ⟨coming, arrived, heq⟩ := r.arrive_keeps
    rw [heq]
  | waits hopen hnext | line hopen hnext | exhausted hopen hnext | fails hopen hnext =>
    obtain ⟨arrived, line, rfl⟩ := keeps_of_nextLine hnext
    rfl

/-- A step delivers the first of the outstanding lines. -/
theorem Step.outstanding_eq (hstep : Step r delivered r') :
    r.outstanding = delivered ++ r'.outstanding := by
  cases hstep with
  | idle | interrupt => rfl
  | arrive =>
    rw [outstanding, outstanding, ahead_arrive]
    rfl
  | line hopen hnext => exact (outcome_of_nextLine hnext).outstanding_of_line
  | waits hopen hnext =>
    cases outcome_of_nextLine hnext with
    | waits hcoming hahead =>
      rw [outstanding, outstanding, hahead]
      rfl
  | exhausted hopen hnext =>
    cases outcome_of_nextLine hnext with
    | exhausted hahead hahead' =>
      rw [outstanding, outstanding, ahead_interrupt, ahead_close, hahead, hahead']
      rfl
  | fails hopen hnext =>
    cases outcome_of_nextLine hnext with
    | fails hbreaks hahead =>
      rw [outstanding, outstanding, ahead_interrupt, ahead_close, hahead]
      rfl

/-- A reader is closed only when nothing lies ahead of it, unless its stream breaks. -/
def ClosesAtEnd (r : StreamReader) : Prop := r.isOpen = false → r.breaks = true ∨ r.ahead = []

theorem Step.closesAtEnd (hstep : Step r delivered r') (hcloses : r.ClosesAtEnd) :
    r'.ClosesAtEnd := by
  intro hclosed
  have hbreaks := hstep.breaks_eq
  cases hstep with
  | idle => exact hcloses hclosed
  | interrupt => exact hcloses hclosed
  | arrive =>
    obtain ⟨coming, arrived, heq⟩ := r.arrive_keeps
    rw [ahead_arrive, hbreaks]
    rw [heq] at hclosed
    exact hcloses hclosed
  | waits hopen hnext | line hopen hnext =>
    obtain ⟨arrived, line, rfl⟩ := keeps_of_nextLine hnext
    have hstill : r.isOpen = false := hclosed
    exact absurd hopen (by simp [hstill])
  | exhausted hopen hnext =>
    cases outcome_of_nextLine hnext with
    | exhausted hahead hahead' => exact .inr hahead'
  | fails hopen hnext =>
    cases outcome_of_nextLine hnext with
    | fails hbroken hahead => exact .inl (hbreaks.trans hbroken)

theorem remaining_eq_zero_iff : r.remaining = 0 ↔ r.isOpen = false := by
  unfold remaining
  cases r.isOpen <;> simp

theorem remaining_of_open (hopen : r.isOpen = true) :
    r.remaining = r.ahead.length + (r.coming.elim 0 fun chunks => chunks.length + 1) + 1 :=
  if_pos hopen

/-- There is no more to be done than before, and as long as there is no less, an open reader has the same
chunks to come. -/
structure Advances (r r' : StreamReader) : Prop where
  le : r'.remaining ≤ r.remaining
  coming_eq : r'.remaining = r.remaining → r.isOpen = true → r'.coming = r.coming

theorem Advances.refl (r : StreamReader) : Advances r r := ⟨Nat.le_refl _, fun _ _ => rfl⟩

theorem Advances.of_lt (hlt : r'.remaining < r.remaining) : Advances r r' :=
  ⟨Nat.le_of_lt hlt, fun heq => absurd heq (Nat.ne_of_lt hlt)⟩

theorem isOpen_of_remaining_eq (heq : r'.remaining = r.remaining) (hopen : r.isOpen = true) :
    r'.isOpen = true := by
  have hpos : r.remaining ≠ 0 := by simp [remaining_eq_zero_iff, hopen]
  rw [← heq, ne_eq, remaining_eq_zero_iff, Bool.not_eq_false] at hpos
  exact hpos

theorem Advances.trans (hfirst : Advances r r') (hsecond : Advances r' r'') : Advances r r'' where
  le := Nat.le_trans hsecond.le hfirst.le
  coming_eq := by
    intro heq hopen
    have hmiddle : r'.remaining = r.remaining :=
      Nat.le_antisymm hfirst.le (heq ▸ hsecond.le)
    exact (hsecond.coming_eq (heq.trans hmiddle.symm) (isOpen_of_remaining_eq hmiddle hopen)).trans
      (hfirst.coming_eq hmiddle hopen)

theorem isOpen_arrive (r : StreamReader) : r.arrive.isOpen = r.isOpen := by
  obtain ⟨coming, arrived, heq⟩ := r.arrive_keeps
  rw [heq]

theorem remaining_arrive_lt (hopen : r.isOpen = true) (hcoming : r.coming ≠ none) :
    r.arrive.remaining < r.remaining := by
  have hopen' : r.arrive.isOpen = true := r.isOpen_arrive.trans hopen
  rw [remaining_of_open hopen, remaining_of_open hopen', ahead_arrive]
  unfold arrive
  split
  · rename_i chunk rest hchunks
    simp [hchunks]
  · rename_i hchunks
    simp [hchunks]
  · rename_i hchunks
    exact absurd hchunks hcoming

theorem advances_arrive (r : StreamReader) : Advances r r.arrive := by
  cases hopen : r.isOpen with
  | false =>
    have hclosed : r.arrive.isOpen = false := r.isOpen_arrive.trans hopen
    refine ⟨?_, fun _ htrue => absurd htrue (by simp [hopen])⟩
    rw [remaining_eq_zero_iff.mpr hclosed]
    exact Nat.zero_le _
  | true =>
    by_cases hcoming : r.coming = none
    · have hsame : r.arrive = r := by
        unfold arrive
        rw [hcoming]
      rw [hsame]
      exact .refl r
    · exact .of_lt (remaining_arrive_lt hopen hcoming)

theorem remaining_close_lt (hopen : r.isOpen = true) (hclosed : r'.isOpen = false) :
    r'.remaining < r.remaining := by
  rw [remaining_eq_zero_iff.mpr hclosed]
  exact Nat.pos_of_ne_zero (by simp [remaining_eq_zero_iff, hopen])

theorem remaining_lt_of_line {text : String} (hopen : r.isOpen = true)
    (hnext : r.nextLine = (r', .line text)) : (r'.push text).interrupt.remaining < r.remaining := by
  have hless := (outcome_of_nextLine hnext).ahead_lt_of_line
  obtain ⟨arrived, line, heq⟩ := keeps_of_nextLine hnext
  have hopen' : (r'.push text).interrupt.isOpen = true := by
    rw [heq]
    exact hopen
  have hcoming : (r'.push text).interrupt.coming = r.coming := by
    rw [heq]
    rfl
  rw [remaining_of_open hopen, remaining_of_open hopen', hcoming, ahead_interrupt, ahead_push]
  omega

theorem Step.advances (hstep : Step r delivered r') : Advances r r' := by
  cases hstep with
  | idle => exact .refl r
  | interrupt => exact ⟨Nat.le_refl _, fun _ _ => rfl⟩
  | arrive => exact r.advances_arrive
  | line hopen hnext => exact .of_lt (remaining_lt_of_line hopen hnext)
  | exhausted hopen hnext | fails hopen hnext => exact .of_lt (remaining_close_lt hopen rfl)
  | waits hopen hnext =>
    cases outcome_of_nextLine hnext with
    | waits hcoming hahead =>
      obtain ⟨arrived, line, rfl⟩ := keeps_of_nextLine hnext
      refine ⟨Nat.le_of_eq ?_, fun _ _ => rfl⟩
      rw [remaining_of_open hopen, remaining_of_open (by exact hopen), hahead]

end StreamReader

namespace Capture

open StreamReader

variable {c : Capture} {stream other : OutputStream} {moves : List Move} {o : Output}

@[simp]
theorem reader_start (o : Output) (stream : OutputStream) :
    (start o).reader stream = .start (o.through stream) := by
  cases stream <;> rfl

@[simp]
theorem reader_setReader_self (c : Capture) (stream : OutputStream) (r : StreamReader) :
    (c.setReader stream r).reader stream = r := by
  cases stream <;> rfl

theorem reader_setReader_of_ne (c : Capture) (r : StreamReader) (hne : other ≠ stream) :
    (c.setReader other r).reader stream = c.reader stream := by
  cases stream <;> cases other <;> first | rfl | exact absurd rfl hne

@[simp]
theorem linesOf_setReader (c : Capture) (r : StreamReader) :
    (c.setReader other r).linesOf stream = c.linesOf stream := by
  cases other <;> rfl

@[simp]
theorem reader_interrupt (c : Capture) (stream : OutputStream) :
    c.interrupt.reader stream = (c.reader stream).interrupt := by
  cases stream <;> rfl

@[simp]
theorem linesOf_interrupt (c : Capture) : c.interrupt.linesOf stream = c.linesOf stream := rfl

@[simp]
theorem reader_deliver (c : Capture) (r : StreamReader) (line : String) :
    (c.deliver other r line).reader stream = (c.setReader other (r.push line)).reader stream := by
  cases stream <;> rfl

@[simp]
theorem linesOf_deliver_self (c : Capture) (r : StreamReader) (line : String) :
    (c.deliver stream r line).linesOf stream = c.linesOf stream ++ [line] := by
  simp [deliver, linesOf]

theorem linesOf_deliver_of_ne (c : Capture) (r : StreamReader) (line : String)
    (hne : other ≠ stream) : (c.deliver other r line).linesOf stream = c.linesOf stream := by
  simp [deliver, linesOf, hne]

/-- A stream sees what happens on it, and of the other stream only that its own attempt is broken off. -/
theorem poll_step (c : Capture) (stream other : OutputStream) :
    ∃ delivered, Step (c.reader stream) delivered ((c.poll other).reader stream) ∧
      (c.poll other).linesOf stream = c.linesOf stream ++ delivered := by
  unfold poll
  split
  · rename_i hopen
    by_cases heq : other = stream
    · subst heq
      split
      · rename_i r hnext
        exact ⟨[], by simpa using Step.waits hopen hnext, by simp⟩
      · rename_i r text hnext
        exact ⟨[text], by simpa using Step.line hopen hnext, by simp⟩
      · rename_i r hnext
        exact ⟨[], by simpa using Step.exhausted hopen hnext, by simp⟩
      · rename_i r hnext
        exact ⟨[], by simpa using Step.fails hopen hnext, by simp⟩
    · split
      · rename_i r hnext
        refine ⟨[], ?_, by simp⟩
        rw [reader_setReader_of_ne c r heq]
        exact .idle _
      · rename_i r text hnext
        refine ⟨[], ?_, by simp [linesOf_deliver_of_ne c r text heq]⟩
        rw [reader_interrupt, reader_deliver, reader_setReader_of_ne c _ heq]
        exact .interrupt _
      · rename_i r hnext
        refine ⟨[], ?_, by simp⟩
        rw [reader_interrupt, reader_setReader_of_ne c _ heq]
        exact .interrupt _
      · rename_i r hnext
        refine ⟨[], ?_, by simp⟩
        rw [reader_interrupt, reader_setReader_of_ne c _ heq]
        exact .interrupt _
  · exact ⟨[], .idle _, by simp⟩

theorem move_step (c : Capture) (m : Move) (stream : OutputStream) :
    ∃ delivered, Step (c.reader stream) delivered ((c.move m).reader stream) ∧
      (c.move m).linesOf stream = c.linesOf stream ++ delivered := by
  cases m with
  | poll other => exact c.poll_step stream other
  | arrive other =>
    refine ⟨[], ?_, by simp [move]⟩
    by_cases heq : other = stream
    · subst heq
      rw [move, reader_setReader_self]
      exact .arrive _
    · rw [move, reader_setReader_of_ne c _ heq]
      exact .idle _

theorem run_cons (c : Capture) (m : Move) (moves : List Move) :
    c.run (m :: moves) = (c.move m).run moves := rfl

theorem run_append (c : Capture) (first second : List Move) :
    c.run (first ++ second) = (c.run first).run second :=
  List.foldl_append

/-- What every step of a reader keeps is kept by every run of the loop. -/
theorem run_keeps {P : StreamReader → List String → Prop}
    (hstep : ∀ {r r' lines delivered}, Step r delivered r' → P r lines → P r' (lines ++ delivered))
    (moves : List Move) (hstart : P (c.reader stream) (c.linesOf stream)) :
    P ((c.run moves).reader stream) ((c.run moves).linesOf stream) := by
  induction moves generalizing c with
  | nil => exact hstart
  | cons m moves ih =>
    obtain ⟨delivered, hmove, hlines⟩ := c.move_step m stream
    rw [run_cons]
    apply ih
    rw [hlines]
    exact hstep hmove hstart

theorem run_advances (c : Capture) (moves : List Move) (stream : OutputStream) :
    Advances (c.reader stream) ((c.run moves).reader stream) :=
  run_keeps (P := fun r _ => Advances (c.reader stream) r)
    (fun hstep hadvances => hadvances.trans hstep.advances) moves (.refl _)

/-- At every moment, delivered and outstanding lines are together the lines of the stream. -/
theorem run_lines (o : Output) (moves : List Move) (stream : OutputStream) :
    ((start o).run moves).linesOf stream ++ (((start o).run moves).reader stream).outstanding =
      (o.through stream).lines := by
  refine run_keeps (P := fun r lines => lines ++ r.outstanding = (o.through stream).lines)
    (fun hstep hlines => ?_) moves ?_
  · rw [List.append_assoc, ← hstep.outstanding_eq]
    exact hlines
  · rw [reader_start]
    exact outstanding_start _

theorem run_closesAtEnd (o : Output) (moves : List Move) (stream : OutputStream) :
    (((start o).run moves).reader stream).breaks = (o.through stream).breaks ∧
      (((start o).run moves).reader stream).ClosesAtEnd := by
  refine run_keeps (P := fun r _ => r.breaks = (o.through stream).breaks ∧ r.ClosesAtEnd)
    (fun hstep hkept => ⟨hstep.breaks_eq.trans hkept.1, hstep.closesAtEnd hkept.2⟩) moves ?_
  rw [reader_start]
  exact ⟨rfl, nofun⟩

/-- Whether in some moves both streams get something to arrive and are asked for a line. -/
def IsFair (moves : List Move) : Prop := ∀ stream, .arrive stream ∈ moves ∧ .poll stream ∈ moves

theorem isFair_round : IsFair round := by
  intro stream
  cases stream <;> decide

/-- If a run brings an open reader no further, then before each of its moves the reader is open with the
same chunks to come, and the move brings it no further. -/
theorem stuck_at_move (hopen : (c.reader stream).isOpen = true)
    (hstuck : ((c.run moves).reader stream).remaining = (c.reader stream).remaining) {m : Move}
    (hm : m ∈ moves) : ∃ c' : Capture, (c'.reader stream).isOpen = true ∧
      (c'.reader stream).coming = (c.reader stream).coming ∧
      ((c'.move m).reader stream).remaining = (c'.reader stream).remaining := by
  obtain ⟨front, back, rfl⟩ := List.append_of_mem hm
  rw [run_append, run_cons] at hstuck
  have hfront := c.run_advances front stream
  have hback := ((c.run front).move m).run_advances back stream
  obtain ⟨delivered, hstep, -⟩ := (c.run front).move_step m stream
  have hmove := hstep.advances.le
  have hle := hfront.le
  have hle' := hback.le
  have heq : ((c.run front).reader stream).remaining = (c.reader stream).remaining := by omega
  exact ⟨c.run front, isOpen_of_remaining_eq heq hopen, hfront.coming_eq heq hopen, by omega⟩

theorem remaining_poll_lt (hopen : (c.reader stream).isOpen = true)
    (hcoming : (c.reader stream).coming = none) :
    ((c.poll stream).reader stream).remaining < (c.reader stream).remaining := by
  rw [poll, if_pos hopen]
  split
  · rename_i r hnext
    cases outcome_of_nextLine hnext with
    | waits hmore hahead => exact absurd hcoming hmore
  · rename_i r text hnext
    simpa using remaining_lt_of_line hopen hnext
  · rename_i r hnext
    exact remaining_close_lt hopen (by simp [close, StreamReader.interrupt])
  · rename_i r hnext
    exact remaining_close_lt hopen (by simp [close, StreamReader.interrupt])

/-- A fair run brings every open reader closer to its end. -/
theorem remaining_lt_of_isFair (hfair : IsFair moves) (hopen : (c.reader stream).isOpen = true) :
    ((c.run moves).reader stream).remaining < (c.reader stream).remaining := by
  by_contra hnot
  have hstuck : ((c.run moves).reader stream).remaining = (c.reader stream).remaining :=
    Nat.le_antisymm (c.run_advances moves stream).le (Nat.not_lt.mp hnot)
  have hcoming : (c.reader stream).coming = none := by
    by_contra hmore
    obtain ⟨c', hopen', hcoming', hsame⟩ := stuck_at_move hopen hstuck (hfair stream).1
    rw [move, reader_setReader_self] at hsame
    exact Nat.ne_of_lt (remaining_arrive_lt hopen' (hcoming' ▸ hmore)) hsame
  obtain ⟨c', hopen', hcoming', hsame⟩ := stuck_at_move hopen hstuck (hfair stream).2
  exact Nat.ne_of_lt (remaining_poll_lt hopen' (hcoming'.trans hcoming)) hsame

theorem closed_of_rounds {rounds : List (List Move)} (hfair : ∀ moves ∈ rounds, IsFair moves)
    (hlength : (c.reader stream).remaining ≤ rounds.length) :
    ((c.run rounds.flatten).reader stream).isOpen = false := by
  induction rounds generalizing c with
  | nil => exact remaining_eq_zero_iff.mp (Nat.le_zero.mp hlength)
  | cons moves rounds ih =>
    obtain ⟨hmoves, hrounds⟩ := List.forall_mem_cons.mp hfair
    rw [List.flatten_cons, run_append]
    apply ih hrounds
    rw [List.length_cons] at hlength
    cases hopen : (c.reader stream).isOpen with
    | true =>
      have hless := remaining_lt_of_isFair hmoves hopen
      omega
    | false =>
      have hle := (c.run_advances moves stream).le
      rw [remaining_eq_zero_iff.mpr hopen] at hle
      omega

theorem isFinished_iff : c.isFinished = true ↔ ∀ stream, (c.reader stream).isOpen = false := by
  rw [isFinished, Bool.and_eq_true, Bool.not_eq_true', Bool.not_eq_true']
  exact ⟨fun h stream => by cases stream; exacts [h.1, h.2], fun h => ⟨h .stdout, h .stderr⟩⟩

theorem remaining_reader_le (c : Capture) (stream : OutputStream) :
    (c.reader stream).remaining ≤ c.remaining := by
  cases stream
  · exact Nat.le_add_right _ _
  · exact Nat.le_add_left _ _

theorem isFinished_of_rounds {rounds : List (List Move)} (hfair : ∀ moves ∈ rounds, IsFair moves)
    (hlength : c.remaining ≤ rounds.length) : (c.run rounds.flatten).isFinished = true :=
  isFinished_iff.mpr fun stream =>
    closed_of_rounds hfair (Nat.le_trans (c.remaining_reader_le stream) hlength)

theorem remaining_run_le (c : Capture) (moves : List Move) : (c.run moves).remaining ≤ c.remaining :=
  Nat.add_le_add (c.run_advances moves .stdout).le (c.run_advances moves .stderr).le

theorem remaining_run_lt (hfair : IsFair moves) (hunfinished : c.isFinished = false) :
    (c.run moves).remaining < c.remaining := by
  have hstdout := (c.run_advances moves .stdout).le
  have hstderr := (c.run_advances moves .stderr).le
  rw [isFinished, Bool.and_eq_false_iff, Bool.not_eq_false', Bool.not_eq_false'] at hunfinished
  have hless (stream : OutputStream) (hopen : (c.reader stream).isOpen = true) :
      ((c.run moves).reader stream).remaining < (c.reader stream).remaining :=
    remaining_lt_of_isFair hfair hopen
  rcases hunfinished with hopen | hopen
  · exact Nat.add_lt_add_of_lt_of_le (hless .stdout hopen) hstderr
  · exact Nat.add_lt_add_of_le_of_lt hstdout (hless .stderr hopen)

theorem exists_moves_goOn (rounds : Nat) (c : Capture) : ∃ moves, goOn rounds c = c.run moves := by
  induction rounds generalizing c with
  | zero => exact ⟨[], rfl⟩
  | succ rounds ih =>
    rw [goOn]
    split
    · exact ⟨[], rfl⟩
    · obtain ⟨moves, hmoves⟩ := ih (c.run round)
      exact ⟨round ++ moves, by rw [hmoves, run_append]⟩

theorem isFinished_goOn {rounds : Nat} (hrounds : c.remaining ≤ rounds) :
    (goOn rounds c).isFinished = true := by
  induction rounds generalizing c with
  | zero =>
    refine isFinished_iff.mpr fun stream => remaining_eq_zero_iff.mp ?_
    exact Nat.le_zero.mp (Nat.le_trans (c.remaining_reader_le stream) hrounds)
  | succ rounds ih =>
    rw [goOn]
    split
    · assumption
    · rename_i hunfinished
      have hless := remaining_run_lt isFair_round ((Bool.not_eq_true _).mp hunfinished)
      exact ih (by omega)

end Capture

/-- What is read in the end is read by a run that has come to its end. -/
theorem Reception.exists_moves (t : Reception) : ∃ moves,
    t.capture = (Capture.start t.output).run moves ∧ t.capture.isFinished = true := by
  obtain ⟨moves, hmoves⟩ := Capture.exists_moves_goOn
    ((Capture.start t.output).run t.moves).remaining ((Capture.start t.output).run t.moves)
  refine ⟨t.moves ++ moves, ?_, Capture.isFinished_goOn (Nat.le_refl _)⟩
  rw [Capture.run_append]
  exact hmoves

end CommitVerdict
