namespace CommitVerdict

/-- A run of decimal digits. -/
structure Digits where
  chars : List Char
  isDigit : ∀ c ∈ chars, c.isDigit = true
deriving DecidableEq, Repr

namespace Digits

def empty : Digits := ⟨[], by simp⟩

instance : Inhabited Digits := ⟨empty⟩

def ofNat (n : Nat) : Digits :=
  ⟨Nat.toDigits 10 n, fun _ hmem => Nat.isDigit_of_mem_toDigits (by decide) (by decide) hmem⟩

/-- The digits at the start of a text. -/
def leading (cs : List Char) : Digits :=
  ⟨cs.takeWhile Char.isDigit, List.all_eq_true.mp List.all_takeWhile⟩

end Digits

/-- A number as it is written in decimal notation. A literal keeps what its text says and no more: `1.0`, `1`
and `1e+0` are three literals. -/
structure NumberLiteral where
  negative : Bool
  whole : Nat
  /-- The digits after the point; without any there is no point. -/
  fraction : Digits
  exponent : Option Int
deriving DecidableEq, Repr, Inhabited

namespace NumberLiteral

def ofNat (n : Nat) : NumberLiteral := ⟨false, n, .empty, none⟩

def ofInt (i : Int) : NumberLiteral := ⟨i < 0, i.natAbs, .empty, none⟩

def exponentChars (e : Int) : List Char :=
  'e' :: (if e < 0 then '-' else '+') :: Nat.toDigits 10 e.natAbs

def chars (n : NumberLiteral) : List Char :=
  (if n.negative then ['-'] else []) ++ Nat.toDigits 10 n.whole
    ++ (if n.fraction.chars.isEmpty then [] else '.' :: n.fraction.chars)
    ++ (n.exponent.map exponentChars).getD []

def text (n : NumberLiteral) : String := String.ofList n.chars

end NumberLiteral

end CommitVerdict
