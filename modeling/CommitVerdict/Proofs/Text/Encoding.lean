import CommitVerdict.Text.Utf8
import Mathlib.Data.List.Basic

namespace CommitVerdict

namespace Utf8

theorem utf8EncodeChar_ascii {c : Char} (hascii : c.toNat < 128) :
    String.utf8EncodeChar c = [UInt8.ofNat c.toNat] := by
  have hsize : c.utf8Size = 1 := by
    rw [Char.utf8Size_eq_one_iff, UInt32.le_iff_toNat_le]
    exact Nat.le_of_lt_succ hascii
  rw [String.utf8EncodeChar_eq_singleton hsize]
  rfl

theorem le_of_mem_utf8EncodeChar {c : Char} (hhigh : 128 ≤ c.toNat) {b : UInt8}
    (hmem : b ∈ String.utf8EncodeChar c) : 128 ≤ b := by
  have hvalue : c.val.toNat = c.toNat := rfl
  have hbyte (n : Nat) (hn : 128 ≤ n) (hn' : n < 256) : (128 : UInt8) ≤ UInt8.ofNat n := by
    rw [UInt8.le_iff_toNat_le, UInt8.toNat_ofNat', Nat.mod_eq_of_lt hn']
    exact hn
  simp only [String.utf8EncodeChar] at hmem
  split at hmem
  · omega
  · split at hmem
    · simp only [List.mem_cons, List.not_mem_nil, or_false] at hmem
      rcases hmem with rfl | rfl <;> exact hbyte _ (by omega) (by omega)
    · split at hmem
      · simp only [List.mem_cons, List.not_mem_nil, or_false] at hmem
        rcases hmem with rfl | rfl | rfl <;> exact hbyte _ (by omega) (by omega)
      · simp only [List.mem_cons, List.not_mem_nil, or_false] at hmem
        rcases hmem with rfl | rfl | rfl | rfl <;> exact hbyte _ (by omega) (by omega)

/-- An ASCII byte belongs to its own character. -/
theorem utf8EncodeChar_of_mem {c d : Char} (hascii : d.toNat < 128)
    (hmem : UInt8.ofNat d.toNat ∈ String.utf8EncodeChar c) : c = d := by
  have hbyte {n : Nat} (hn : n < 128) : (UInt8.ofNat n).toNat = n := by
    rw [UInt8.toNat_ofNat', Nat.mod_eq_of_lt (by omega)]
  by_cases hc : c.toNat < 128
  · rw [utf8EncodeChar_ascii hc, List.mem_singleton] at hmem
    have hnat : d.toNat = c.toNat := by
      rw [← hbyte hascii, ← hbyte hc, hmem]
    exact (Char.toNat_inj.mp hnat).symm
  · have hle := le_of_mem_utf8EncodeChar (by omega) hmem
    rw [UInt8.le_iff_toNat_le, hbyte hascii] at hle
    exact absurd hascii (by simpa using hle)

theorem encodeChars_append (cs ds : List Char) :
    encodeChars (cs ++ ds) = encodeChars cs ++ encodeChars ds :=
  List.flatMap_append

theorem encode_append (s t : String) : encode (s ++ t) = encode s ++ encode t := by
  rw [encode, String.toList_append, encodeChars_append, encode, encode]

theorem encode_injective {s t : String} (heq : encode s = encode t) : s = t := by
  have hbytes : s.toList.utf8Encode = t.toList.utf8Encode := congrArg List.toByteArray heq
  rwa [String.utf8Encode_toList, String.utf8Encode_toList, String.toByteArray_inj] at hbytes

theorem mem_encodeChars_iff {cs : List Char} {d : Char} (hascii : d.toNat < 128) :
    UInt8.ofNat d.toNat ∈ encodeChars cs ↔ d ∈ cs := by
  rw [encodeChars, List.mem_flatMap]
  constructor
  · rintro ⟨c, hc, hmem⟩
    exact utf8EncodeChar_of_mem hascii hmem ▸ hc
  · intro hd
    exact ⟨d, hd, by rw [utf8EncodeChar_ascii hascii]; exact List.mem_singleton_self _⟩

theorem head_of_encode {s : String} {d : Char} (hascii : d.toNat < 128) {rest : Bytes}
    (hencode : encode s = UInt8.ofNat d.toNat :: rest) : s.toList.head? = some d := by
  cases hs : s.toList with
  | nil => simp [encode, encodeChars, hs] at hencode
  | cons c cs =>
    obtain ⟨b, bytes, hbytes⟩ := List.exists_cons_of_ne_nil (String.utf8EncodeChar_ne_nil (c := c))
    rw [encode, encodeChars, hs, List.flatMap_cons, hbytes, List.cons_append, List.cons.injEq] at hencode
    have hc : c = d := utf8EncodeChar_of_mem hascii (by rw [hbytes, hencode.1]; exact List.mem_cons_self)
    rw [List.head?_cons, hc]

theorem encodeChars_replicate {d : Char} (hascii : d.toNat < 128) (n : Nat) :
    encodeChars (List.replicate n d) = List.replicate n (UInt8.ofNat d.toNat) := by
  rw [encodeChars, List.flatMap_replicate, utf8EncodeChar_ascii hascii, List.flatten_replicate_singleton]

/-- A run of one ASCII byte at the end of a text is a run of its character. -/
theorem exists_replicate_of_encodeChars {d : Char} (hascii : d.toNat < 128) {n : Nat} {front : Bytes}
    {cs : List Char} (hend : encodeChars cs = front ++ List.replicate n (UInt8.ofNat d.toNat)) :
    ∃ start, cs = start ++ List.replicate n d ∧ encodeChars start = front := by
  induction n generalizing cs with
  | zero => exact ⟨cs, by simp, by simpa using hend⟩
  | succ n ih =>
    rw [List.replicate_succ', ← List.append_assoc] at hend
    obtain rfl | ⟨cs, c, rfl⟩ := cs.eq_nil_or_concat'
    · simp [encodeChars] at hend
    · have hone : encodeChars [c] = String.utf8EncodeChar c := by simp [encodeChars]
      have hlast : UInt8.ofNat d.toNat ∈ String.utf8EncodeChar c := by
        obtain ⟨bytes, b, hbytes⟩ := (String.utf8EncodeChar c).eq_nil_or_concat'.resolve_left
          String.utf8EncodeChar_ne_nil
        rw [encodeChars_append, hone, hbytes, ← List.append_assoc] at hend
        rw [hbytes, (List.append_inj' hend rfl).2]
        exact List.mem_append_right _ (List.mem_singleton_self _)
      obtain rfl := utf8EncodeChar_of_mem hascii hlast
      rw [encodeChars_append, hone, utf8EncodeChar_ascii hascii] at hend
      obtain ⟨start, hcs, hstart⟩ := ih (List.append_inj' hend rfl).1
      exact ⟨start, by rw [hcs, List.replicate_succ', List.append_assoc], hstart⟩

end Utf8

end CommitVerdict
