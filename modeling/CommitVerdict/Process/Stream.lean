import CommitVerdict.Text.Lines
import CommitVerdict.Text.Utf8

namespace CommitVerdict

/-- What is sent through one stream. -/
structure Transmission where
  /-- The bytes, in the chunks in which they arrive. -/
  chunks : List Bytes
  /-- Whether the stream cannot be read any further behind them, and does not come to its end. -/
  breaks : Bool
deriving DecidableEq, Repr

def Transmission.bytes (t : Transmission) : Bytes := t.chunks.flatten

/-- The bytes of a line that has been started; the line feed is still to come. -/
structure StartedLine where
  bytes : Bytes
  /-- How many of them the attempt in progress has taken. -/
  taken : Nat
  unended : LineMarks.bytes.feed ∉ bytes
  taken_le : taken ≤ bytes.length

namespace StartedLine

def empty : StartedLine := ⟨[], 0, List.not_mem_nil, Nat.le_refl 0⟩

/-- Takes more bytes of the same line. -/
def extend (l : StartedLine) (more : Bytes) (hmore : LineMarks.bytes.feed ∉ more) : StartedLine where
  bytes := l.bytes ++ more
  taken := l.taken + more.length
  unended := by simp [l.unended, hmore]
  taken_le := by rw [List.length_append]; exact Nat.add_le_add_right l.taken_le _

/-- Breaks off the attempt in progress. The bytes that it has taken stay. -/
def interrupt (l : StartedLine) : StartedLine := { l with taken := 0, taken_le := Nat.zero_le _ }

end StartedLine

/-- What there is in the chunks that have arrived. -/
inductive Scan where
  /-- Bytes up to a line feed, which is the last of them, and the chunks behind it. -/
  | ended (bytes : Bytes) (behind : List Bytes)
  | unended (bytes : Bytes) (hunended : LineMarks.bytes.feed ∉ bytes)

/-- Goes through chunks until one of them has a line feed. -/
def Scan.ofChunks : List Bytes → Scan
  | [] => .unended [] List.not_mem_nil
  | chunk :: rest =>
    if hchunk : LineMarks.bytes.feed ∈ chunk then
      let others := chunk.span (· != LineMarks.bytes.feed)
      .ended (others.1 ++ [LineMarks.bytes.feed]) (others.2.tail :: rest)
    else
      match ofChunks rest with
      | .ended bytes behind => .ended (chunk ++ bytes) behind
      | .unended bytes hbytes => .unended (chunk ++ bytes) (by simp [hchunk, hbytes])

/-- A stream that is being read. -/
structure StreamReader where
  /-- The chunks that are still to come; none once the end has arrived too. -/
  coming : Option (List Bytes)
  /-- The chunks that have arrived and have not been taken. -/
  arrived : List Bytes
  /-- Whether reading fails behind the last chunk. -/
  breaks : Bool
  line : StartedLine
  /-- Whether more lines are asked for. -/
  isOpen : Bool
  /-- The text of the lines so far. -/
  text : String

/-- What an attempt to read a line comes to. It takes what has arrived up to a line feed, or waits for more
and may be broken off while it waits; what it has taken stays behind as the beginning of a line. -/
inductive Attempt where
  /-- The line is not complete, and nothing more has arrived. -/
  | waits
  | line (text : String)
  | exhausted
  | fails
deriving DecidableEq, Repr

namespace StreamReader

def start (t : Transmission) : StreamReader := ⟨some t.chunks, [], t.breaks, .empty, true, ""⟩

/-- The next chunk arrives, or the end. -/
def arrive (r : StreamReader) : StreamReader :=
  match r.coming with
  | some (chunk :: rest) => { r with coming := some rest, arrived := r.arrived ++ [chunk] }
  | some [] => { r with coming := none }
  | none => r

/-- The text of a line. A line feed at the end is no part of it, nor is one carriage return in front of
the line feed. -/
def lineText (bytes : Bytes) : String :=
  Utf8.text <|
    if bytes.getLast? = some LineMarks.bytes.feed then
      let line := bytes.dropLast
      if line.getLast? = some LineMarks.bytes.carriage then line.dropLast else line
    else bytes

/-- An attempt to read a line. -/
def nextLine (r : StreamReader) : StreamReader × Attempt :=
  match Scan.ofChunks r.arrived with
  | .ended bytes behind =>
    ({ r with arrived := behind, line := .empty }, .line (lineText (r.line.bytes ++ bytes)))
  | .unended bytes hbytes =>
    let line := r.line.extend bytes hbytes
    let r := { r with arrived := [], line := line }
    match r.coming with
    | some _ => (r, .waits)
    | none =>
      if r.breaks then (r, .fails)
      else if line.taken = 0 ∧ line.bytes.isEmpty then (r, .exhausted)
      else ({ r with line := .empty }, .line (lineText line.bytes))

/-- Breaks off the attempt in progress. -/
def interrupt (r : StreamReader) : StreamReader := { r with line := r.line.interrupt }

/-- Asks for no more lines. -/
def close (r : StreamReader) : StreamReader := { r with isOpen := false }

/-- Adds a line to a text. A text that is still empty gets no line end in front of it. -/
def addLine (text line : String) : String :=
  if text.isEmpty then line else text ++ "\n" ++ line

def push (r : StreamReader) (line : String) : StreamReader := { r with text := addLine r.text line }

/-- The bytes that no line has been made of yet. -/
def ahead (r : StreamReader) : Bytes :=
  r.line.bytes ++ r.arrived.flatten ++ (r.coming.getD []).flatten

/-- A bound on what is still to be done until the reader is closed. -/
def remaining (r : StreamReader) : Nat :=
  if r.isOpen then r.ahead.length + (r.coming.elim 0 fun chunks => chunks.length + 1) + 1 else 0

end StreamReader

end CommitVerdict
