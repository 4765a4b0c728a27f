import CommitVerdict.Event.Display
import Mathlib.Data.String.Basic

namespace CommitVerdict

namespace Banner

def spaces (n : Nat) : String := String.ofList (List.replicate n ' ')

/-- What a field with room for some characters shows of a text. -/
def shown (text : String) (maxLength : Nat) : List Char :=
  if maxLength < text.toList.length then text.toList.take (maxLength - 3) ++ ['.', '.', '.'] else text.toList

/-- The difference of two numbers, unless it falls below zero. -/
def difference? (m n : Nat) : Option Nat := if n ≤ m then some (m - n) else none

/-- What a field shows, unless there is no room for the dots. -/
def shown? (text : String) (maxLength : Nat) : Option (List Char) :=
  if maxLength < text.toList.length then
    (difference? maxLength 3).map fun kept => text.toList.take kept ++ ['.', '.', '.']
  else some text.toList

/-- The field of a banner, unless a difference falls below zero on the way. -/
def field? (text : String) (maxLength width : Nat) : Option String := do
  let shown ← shown? text maxLength
  let blanks ← difference? width (shown.length + 1)
  some (String.ofList (shown ++ List.replicate blanks ' ' ++ ['│']))

/-- A field shows a text in a width, with room for some characters of it. -/
structure Shows (text : String) (maxLength width : Nat) (field : String) : Prop where
  length : field.length = width
  whole : text.length ≤ maxLength → ∃ blanks, field = text ++ spaces blanks ++ "│"
  cut : maxLength < text.length → ∃ head rest blanks, text = head ++ rest ∧ head.length + 3 = maxLength ∧
    field = head ++ "..." ++ spaces blanks ++ "│"
  /-- No difference falls below zero on the way. -/
  noUnderflow : field? text maxLength width = some field

variable {text : String} {maxLength width : Nat}

theorem difference?_eq_some_iff {m n d : Nat} : difference? m n = some d ↔ n ≤ m ∧ m - n = d := by
  simp [difference?]

theorem bannerField_eq (text : String) (maxLength width : Nat) :
    bannerField text maxLength width =
      String.ofList (shown text maxLength) ++ spaces (width - ((shown text maxLength).length + 1)) ++ "│" := by
  have hborder : "│" = String.ofList ['│'] := rfl
  rw [spaces, hborder, ← String.ofList_append, ← String.ofList_append]
  rfl

/-- A field is as wide as it should be, or just wide enough for what it shows. -/
theorem length_bannerField (text : String) (maxLength width : Nat) :
    (bannerField text maxLength width).length = max width ((shown text maxLength).length + 1) := by
  rw [bannerField_eq, spaces, String.length_append, String.length_append, String.length_ofList,
    String.length_ofList, List.length_replicate]
  have hborder : "│".length = 1 := rfl
  omega

theorem shown_of_le (hroom : text.length ≤ maxLength) : shown text maxLength = text.toList := by
  rw [shown, if_neg (by rw [String.length_toList]; omega)]

theorem shown_of_lt (hlong : maxLength < text.length) :
    shown text maxLength = text.toList.take (maxLength - 3) ++ ['.', '.', '.'] := by
  rw [shown, if_pos (by rwa [String.length_toList])]

/-- The dots take the place of characters. -/
theorem length_shown_le (hdots : 3 ≤ maxLength) : (shown text maxLength).length ≤ maxLength := by
  rcases Nat.lt_or_ge maxLength text.length with hlong | hroom
  · rw [shown_of_lt hlong, List.length_append, List.length_take, String.length_toList]
    simp only [List.length_cons, List.length_nil]
    omega
  · rwa [shown_of_le hroom, String.length_toList]

theorem length_eq_width (text : String) (hdots : 3 ≤ maxLength) (hborder : maxLength < width) :
    (bannerField text maxLength width).length = width := by
  have hshown : (shown text maxLength).length ≤ maxLength := length_shown_le hdots
  rw [length_bannerField]
  omega

theorem shown?_eq_some_iff {cs : List Char} :
    shown? text maxLength = some cs ↔ (maxLength < text.length → 3 ≤ maxLength) ∧ shown text maxLength = cs := by
  rcases Nat.lt_or_ge maxLength text.length with hlong | hroom
  · rw [shown?, if_pos (by rwa [String.length_toList]), shown_of_lt hlong]
    simp [difference?_eq_some_iff, hlong]
  · rw [shown?, if_neg (by rw [String.length_toList]; omega), shown_of_le hroom, Option.some_inj]
    simp [Nat.not_lt.mpr hroom]

/-- The checks are passed exactly if the dots and the border have room, and then they change nothing. -/
theorem field?_eq_some_iff {field : String} :
    field? text maxLength width = some field ↔
      (maxLength < text.length → 3 ≤ maxLength) ∧ (shown text maxLength).length < width ∧
        bannerField text maxLength width = field := by
  simp only [field?, Option.bind_eq_bind, Option.bind_eq_some_iff, shown?_eq_some_iff, difference?_eq_some_iff,
    Option.some_inj]
  constructor
  · rintro ⟨_, ⟨hdots, rfl⟩, _, ⟨hborder, rfl⟩, rfl⟩
    exact ⟨hdots, hborder, rfl⟩
  · rintro ⟨hdots, hborder, rfl⟩
    exact ⟨_, ⟨hdots, rfl⟩, _, ⟨hborder, rfl⟩, rfl⟩

/-- With room for the dots and a column for the border, every text is shown in the width. -/
theorem bannerField_shows (text : String) (hdots : 3 ≤ maxLength) (hborder : maxLength < width) :
    Shows text maxLength width (bannerField text maxLength width) where
  length := length_eq_width text hdots hborder
  whole hroom := by
    rw [bannerField_eq, shown_of_le hroom, String.ofList_toList]
    exact ⟨_, rfl⟩
  cut hlong := by
    refine ⟨String.ofList (text.toList.take (maxLength - 3)), String.ofList (text.toList.drop (maxLength - 3)),
      width - ((shown text maxLength).length + 1), ?_, ?_, ?_⟩
    · rw [← String.ofList_append, List.take_append_drop, String.ofList_toList]
    · rw [String.length_ofList, List.length_take, String.length_toList]
      omega
    · have hthree : "..." = String.ofList ['.', '.', '.'] := rfl
      rw [bannerField_eq, hthree, ← String.ofList_append, ← shown_of_lt hlong]
  noUnderflow := field?_eq_some_iff.mpr
    ⟨fun _ => hdots, Nat.lt_of_le_of_lt (length_shown_le hdots) hborder, rfl⟩

/-- Four characters where there is room for three, and no column is left. -/
theorem bannerField_shows_dots :
    3 ≤ 3 ∧ 3 < 4 ∧ Shows "né€𝄞" 3 4 (bannerField "né€𝄞" 3 4) ∧ bannerField "né€𝄞" 3 4 = "...│" :=
  ⟨by decide, by decide, bannerField_shows "né€𝄞" (by decide) (by decide), by decide⟩

end Banner

namespace Event

/-- The rows of the banner between its title and its lower edge. -/
def bannerRows (repository testCommand : String) (references : List String) : List String :=
  (((runStarted repository references testCommand).prettyLines false).drop 3).take 3

theorem bannerRows_eq (repository testCommand : String) (references : List String) :
    bannerRows repository testCommand references =
      ["│  Repo: " ++ bannerField repository 60 67, "│  Tests: " ++ bannerField testCommand 59 66,
        "│  Refs: " ++ bannerField (" ".intercalate references) 60 67] := by
  simp only [bannerRows, prettyLines, Style.paint, Bool.false_and, Bool.false_eq_true, if_false, List.drop, List.take]
  rfl

/-- The right border of the banner stands in one column, whatever its rows show: a row with a longer label has a
narrower field. -/
theorem length_bannerRow {repository testCommand row : String} {references : List String}
    (hrow : row ∈ bannerRows repository testCommand references) : row.length = 76 := by
  rw [bannerRows_eq] at hrow
  simp only [List.mem_cons, List.not_mem_nil, or_false] at hrow
  rcases hrow with rfl | rfl | rfl <;> rw [String.length_append, Banner.length_eq_width _ (by decide) (by decide)] <;>
    rfl

end Event

end CommitVerdict
