import DocumentTable.Text.Utf8

/-!
# Texts and their bytes

## Main results

* `bytesOf_injective`: texts with the same bytes are the same
* `textOf?_eq_some`: reading bytes as text is the inverse of writing text as bytes
* `bytesOf_ascii`: the bytes of a text of characters that take one byte each
* `le_of_mem_utf8EncodeChar`: all bytes of other characters are above those
-/

namespace DocumentTable

/-- The bytes of a text are those of its characters. -/
theorem bytesOf_ofList (chars : List Char) :
    bytesOf (String.ofList chars) = chars.flatMap String.utf8EncodeChar := by
  rw [bytesOf, String.toUTF8, String.toByteArray_ofList, List.utf8Encode,
    List.toList_data_toByteArray]

theorem bytesOf_append (s t : String) : bytesOf (s ++ t) = bytesOf s ++ bytesOf t := by
  rw [← String.ofList_toList (s := s), ← String.ofList_toList (s := t), ← String.ofList_append,
    bytesOf_ofList, bytesOf_ofList, bytesOf_ofList, List.flatMap_append]

/-- Texts with the same bytes are the same, so that texts may be compared by their bytes. -/
theorem bytesOf_injective {s t : String} (h : bytesOf s = bytesOf t) : s = t := by
  apply String.toByteArray_inj.1
  apply ByteArray.ext
  exact Array.toList_inj.1 h

/-- Bytes are read as the text that they are written for, and other bytes as no text. -/
theorem textOf?_eq_some {bytes : List UInt8} {s : String} :
    textOf? bytes = some s ↔ bytesOf s = bytes := by
  rw [textOf?, String.fromUTF8?]
  constructor
  · intro h
    split at h
    · cases h
      rfl
    · cases h
  · rintro rfl
    exact dif_pos s.isValidUTF8

theorem textOf?_bytesOf (s : String) : textOf? (bytesOf s) = some s :=
  textOf?_eq_some.2 rfl

/-! ### Characters of one byte -/

theorem utf8EncodeChar_ascii {c : Char} (h : c.toNat < 128) :
    String.utf8EncodeChar c = [UInt8.ofNat c.toNat] := by
  have size : c.utf8Size = 1 := by
    rw [Char.utf8Size_eq_one_iff, UInt32.le_iff_toNat_le]
    exact Nat.lt_succ_iff.1 h
  rw [String.utf8EncodeChar_eq_singleton size]
  congr 1

theorem toNat_ofNat_ascii {n : Nat} (h : n < 128) : (Char.ofNat n).toNat = n := by
  have valid : n.isValidChar := .inl (by omega)
  rw [Char.ofNat, dif_pos valid]
  rfl

/-- The bytes of characters of one byte are their numbers. -/
theorem bytesOf_ascii {bytes : List UInt8} (h : ∀ b ∈ bytes, b.toNat < 128) :
    bytesOf (String.ofList (bytes.map fun b => Char.ofNat b.toNat)) = bytes := by
  rw [bytesOf_ofList]
  induction bytes with
  | nil => rfl
  | cons b rest ih =>
      rw [List.forall_mem_cons] at h
      have number := toNat_ofNat_ascii h.1
      have ascii : (Char.ofNat b.toNat).toNat < 128 := by
        rw [number]
        exact h.1
      rw [List.map_cons, List.flatMap_cons, ih h.2, utf8EncodeChar_ascii ascii, number,
        UInt8.ofNat_toNat]
      rfl

/-- The bytes of a character that takes several are all above those of characters of one byte. A
reader that looks for one of these never stops inside of a character. -/
theorem le_of_mem_utf8EncodeChar {c : Char} (h : 128 ≤ c.toNat) {b : UInt8}
    (mem : b ∈ String.utf8EncodeChar c) : 128 ≤ b.toNat := by
  have large : 127 < c.val.toNat := h
  rw [String.utf8EncodeChar, if_neg (Nat.not_le.2 large)] at mem
  split at mem
  · simp only [List.mem_cons, List.not_mem_nil, or_false] at mem
    rcases mem with rfl | rfl <;> rw [UInt8.toNat_ofNat'] <;> omega
  · split at mem
    · simp only [List.mem_cons, List.not_mem_nil, or_false] at mem
      rcases mem with rfl | rfl | rfl <;> rw [UInt8.toNat_ofNat'] <;> omega
    · simp only [List.mem_cons, List.not_mem_nil, or_false] at mem
      rcases mem with rfl | rfl | rfl | rfl <;> rw [UInt8.toNat_ofNat'] <;> omega

end DocumentTable
