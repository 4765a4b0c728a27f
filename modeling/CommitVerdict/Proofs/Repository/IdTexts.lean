import CommitVerdict.Report
import CommitVerdict.Proofs.Number.Positional
import CommitVerdict.Proofs.Text.Hex
import CommitVerdict.Text.Utf8

namespace CommitVerdict

namespace CommitId

/-- The bytes of an id, the highest first. -/
def bytes (id : CommitId) : Bytes := positional 256 UInt8.ofNat 20 id.value

/-- The two digits of a byte. -/
def byteDigits (b : UInt8) : List Char := [Nat.digitChar (b.toNat / 16), Nat.digitChar (b.toNat % 16)]

/-- A text of one to forty hexadecimal digits of either case. -/
structure IsText (s : String) : Prop where
  nonempty : 1 ≤ s.length
  fits : s.length ≤ 40
  digits : ∀ c ∈ s.toList, c ∈ "0123456789abcdefABCDEF".toList

/-- A text in lower case, with zeros behind it up to forty characters. -/
def completed (s : String) : String := String.ofList ((s.toList.map Char.toLower).rightpad 40 '0')

/-- A reader takes the texts of ids and no others, and makes of each the id whose written form it begins. -/
structure ReadsTexts {ε : Type} (read : String → Except ε CommitId) : Prop where
  accepts_iff : ∀ s, (∃ id, read s = .ok id) ↔ IsText s
  hex_eq : ∀ s id, read s = .ok id → id.hex = completed s
  read_hex : ∀ id, read id.hex = .ok id
  same_iff : ∀ s t a b, read s = .ok a → read t = .ok b → (a = b ↔ completed s = completed t)

/-- How an id is written, in full and abbreviated. -/
structure IsWritten (id : CommitId) : Prop where
  hex_eq : id.hex = String.ofList (id.bytes.flatMap byteDigits)
  abbreviated_eq : id.abbreviated = String.ofList (id.hex.toList.take 10)

/-- Two ids are compared by their bytes, and that is how their written forms are compared. -/
structure ComparedAsWritten (a b : CommitId) : Prop where
  eq_iff : a = b ↔ a.hex = b.hex
  before_iff_bytes : a.before b = true ↔ a.bytes < b.bytes
  before_iff_hex : a.before b = true ↔ a.hex < b.hex

variable {a b id : CommitId} {s : String}

section Written

theorem digits_eq (id : CommitId) : id.digits = positional 16 Nat.digitChar 40 id.value :=
  hexDigits_eq_positional _ _

theorem inOrder_digitChar : InOrder 16 Nat.digitChar := by
  unfold InOrder
  decide

theorem inOrder_byte : InOrder 256 UInt8.ofNat := fun _ hi _ hj => UInt8.ofNat_lt_iff_lt hi hj

theorem value_lt (id : CommitId) : id.value.val < 256 ^ 20 :=
  Nat.lt_of_lt_of_eq id.value.isLt (by decide)

theorem before_iff : a.before b = true ↔ a.value < b.value := decide_eq_true_iff

theorem hex_inj : a.hex = b.hex ↔ a = b := by
  refine ⟨fun heq => ?_, congrArg hex⟩
  have hparse := a.parse_hex
  rw [heq, b.parse_hex] at hparse
  exact (Except.ok.inj hparse).symm

theorem isWritten (id : CommitId) : IsWritten id where
  hex_eq := by
    have hpair : ∀ i < 16 * 16, byteDigits (UInt8.ofNat i) = [Nat.digitChar (i / 16), Nat.digitChar (i % 16)] := by
      intro i hi
      rw [byteDigits, UInt8.toNat_ofNat_of_lt' hi]
    rw [hex, digits_eq, bytes]
    exact congrArg String.ofList (positional_mul_self hpair (by decide) 20 _)
  abbreviated_eq := by rw [abbreviated, abbreviatedWidth, hex, String.toList_ofList]

theorem comparedAsWritten (a b : CommitId) : ComparedAsWritten a b where
  eq_iff := hex_inj.symm
  before_iff_bytes := by
    rw [before_iff, bytes, bytes, inOrder_byte.positional_lt_iff a.value_lt b.value_lt]
    rfl
  before_iff_hex := by
    rw [before_iff, String.lt_iff_toList_lt, hex, hex, String.toList_ofList, String.toList_ofList, digits_eq,
      digits_eq, inOrder_digitChar.positional_lt_iff a.value.isLt b.value.isLt]
    rfl

/-- Every twenty bytes are those of an id. -/
theorem exists_bytes_iff {raw : Bytes} : (∃ id : CommitId, id.bytes = raw) ↔ raw.length = 20 := by
  constructor
  · rintro ⟨id, rfl⟩
    exact length_positional _ _
  · intro hlength
    have hsigns : ∀ x ∈ (raw : List UInt8), ∃ i < 256, UInt8.ofNat i = x :=
      fun x _ => ⟨x.toNat, x.toNat_lt, UInt8.ofNat_toNat⟩
    obtain ⟨n, hn, heq⟩ := exists_positional (by decide) hsigns
    rw [hlength] at hn heq
    exact ⟨⟨n, hn⟩, heq⟩

end Written

section Read

theorem utf8ByteSize_of_digits (hdigits : ∀ c ∈ s.toList, isHexDigit c = true) : s.utf8ByteSize = s.length := by
  have hsize := utf8Len_of_digits hdigits
  rwa [← String.utf8ByteSize_ofList, String.ofList_toList, String.length_toList] at hsize

/-- The length of a text may be taken in bytes, since a text of digits has as many of them as characters. -/
theorem isText_iff :
    IsText s ↔ s ≠ "" ∧ s.utf8ByteSize ≤ 40 ∧ ∀ c ∈ s.toList, isHexDigit c = true := by
  have hempty : 1 ≤ s.length ↔ s ≠ "" := by
    rw [Nat.one_le_iff_ne_zero, ne_eq, String.length_eq_zero_iff]
  constructor
  · rintro ⟨hnonempty, hfits, hdigits⟩
    have hall : ∀ c ∈ s.toList, isHexDigit c = true := fun c hc => isHexDigit_iff.mpr (hdigits c hc)
    exact ⟨hempty.mp hnonempty, by rwa [utf8ByteSize_of_digits hall], hall⟩
  · rintro ⟨hnonempty, hfits, hall⟩
    exact ⟨hempty.mpr hnonempty, by rwa [utf8ByteSize_of_digits hall] at hfits,
      fun c hc => isHexDigit_iff.mp (hall c hc)⟩

/-- What is read of digits is written as they are, with zeros behind them. -/
theorem hex_ofNat {n : Nat} (hvalue : hexValue? s.toList = some n) (hfits : s.length ≤ 40) :
    (ofNat (n * Nat.pow 16 (width - s.toList.length))).hex = completed s := by
  obtain ⟨hlt, hdigits⟩ := hexDigits_of_hexValue? hvalue
  rw [hexDigits_eq_positional] at hdigits
  rw [String.length_toList] at hlt hdigits ⊢
  have hwidth : s.length + (40 - s.length) = 40 := Nat.add_sub_cancel' hfits
  have hbound : n * 16 ^ (40 - s.length) < 16 ^ 40 := by
    calc
      n * 16 ^ (40 - s.length) < 16 ^ s.length * 16 ^ (40 - s.length) :=
        Nat.mul_lt_mul_of_pos_right hlt (Nat.pow_pos (by decide))
      _ = 16 ^ 40 := by rw [← Nat.pow_add, hwidth]
  have hval : (ofNat (n * Nat.pow 16 (width - s.length))).value.val = n * 16 ^ (40 - s.length) :=
    Nat.mod_eq_of_lt hbound
  have hrow : positional 16 Nat.digitChar (s.length + (40 - s.length)) (n * 16 ^ (40 - s.length)) =
      positional 16 Nat.digitChar s.length n ++ List.replicate (40 - s.length) '0' :=
    positional_mul_pow (by decide) s.length (40 - s.length) n
  rw [hwidth, hdigits] at hrow
  rw [hex, digits_eq, hval, hrow, completed, List.rightpad, List.length_map, String.length_toList]

theorem exists_parse (htext : IsText s) : ∃ id, parse s = .ok id ∧ id.hex = completed s := by
  obtain ⟨hnonempty, hsize, hdigits⟩ := isText_iff.mp htext
  obtain ⟨n, hvalue⟩ := exists_hexValue?_iff.mpr hdigits
  refine ⟨_, ?_, hex_ofNat hvalue htext.fits⟩
  have hfits : ¬width < s.utf8ByteSize := Nat.not_lt.mpr hsize
  rw [parse, if_neg (by simpa using hnonempty), if_neg hfits, hvalue]

theorem isText_of_parse (hok : parse s = .ok id) : IsText s := by
  rw [parse] at hok
  split at hok
  · cases hok
  rename_i hnonempty
  split at hok
  · cases hok
  rename_i hsize
  split at hok
  · rename_i value hvalue
    exact isText_iff.mpr ⟨by simpa using hnonempty, Nat.not_lt.mp hsize, exists_hexValue?_iff.mp ⟨value, hvalue⟩⟩
  · cases hok

/-- A text is read as the id that is written as the completed text. -/
theorem parse_eq_ok_iff : parse s = .ok id ↔ IsText s ∧ id.hex = completed s := by
  constructor
  · intro hok
    obtain ⟨id', hok', hhex⟩ := exists_parse (isText_of_parse hok)
    cases hok.symm.trans hok'
    exact ⟨isText_of_parse hok, hhex⟩
  · rintro ⟨htext, hhex⟩
    obtain ⟨id', hok, hhex'⟩ := exists_parse htext
    rw [hok, hex_inj.mp (hhex'.trans hhex.symm)]

/-- A document gives the id that its text gives, and only a text gives one. -/
theorem decode_eq_ok_iff {j : Json} : decode j = .ok id ↔ ∃ s, j = .string s ∧ parse s = .ok id := by
  cases j with
  | string s =>
    have hdecode : decode (.string s) = (parse s).mapError fun e => .refused e.message := rfl
    rw [hdecode]
    cases hparse : parse s <;> simp [Except.mapError, hparse]
  | null | bool | number | array | object => exact ⟨nofun, nofun⟩

theorem decode_string_eq_ok_iff : decode (.string s) = .ok id ↔ parse s = .ok id := by
  rw [decode_eq_ok_iff]
  exact ⟨fun ⟨_, heq, hok⟩ => Json.string.inj heq ▸ hok, fun hok => ⟨s, rfl, hok⟩⟩

theorem readsTexts {ε : Type} {read : String → Except ε CommitId}
    (hread : ∀ s id, read s = .ok id ↔ parse s = .ok id) : ReadsTexts read where
  accepts_iff s := by
    simp only [hread]
    exact ⟨fun ⟨_, hok⟩ => isText_of_parse hok, fun htext => (exists_parse htext).imp fun _ => And.left⟩
  hex_eq s id hok := (parse_eq_ok_iff.mp ((hread s id).mp hok)).2
  read_hex id := (hread id.hex id).mpr id.parse_hex
  same_iff s t a b ha hb := by
    rw [← (parse_eq_ok_iff.mp ((hread s a).mp ha)).2, ← (parse_eq_ok_iff.mp ((hread t b).mp hb)).2, hex_inj]

end Read

/-- Ids and their texts stand for each other: whether it is read as it is or from a document, a text of one to
forty digits, and no other, gives the id that is written as the completed text; the ids are all rows of twenty
bytes, each is written in digits and read back from them, and the order of the ids is that of the bytes and of
the texts. -/
theorem texts_name_ids :
    ReadsTexts parse ∧ ReadsTexts (fun s => decode (.string s)) ∧
      (∀ j id, decode j = .ok id ↔ ∃ s, j = .string s ∧ parse s = .ok id) ∧
      (∀ raw : Bytes, (∃ id : CommitId, id.bytes = raw) ↔ raw.length = 20) ∧
      (∀ id : CommitId, IsWritten id) ∧ ∀ a b : CommitId, ComparedAsWritten a b :=
  ⟨readsTexts fun _ _ => Iff.rfl, readsTexts fun _ _ => decode_string_eq_ok_iff, fun _ _ => decode_eq_ok_iff,
    fun _ => exists_bytes_iff, isWritten, comparedAsWritten⟩

/-- Three digits in mixed case name the id that begins with them; fourteen characters of three bytes each are too
long, although they are fewer than forty. -/
example :
    (parse "aBc").toOption.map hex = some "abc0000000000000000000000000000000000000" ∧
      parse "€€€€€€€€€€€€€€" = .error .tooLong := by
  decide

end CommitId

end CommitVerdict
