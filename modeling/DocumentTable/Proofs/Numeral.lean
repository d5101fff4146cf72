import DocumentTable.Path

/-!
# Numerals

The digits that a number is written with read back as the number. Placeholders carry numbers, and
steps of paths carry positions, so both are told apart by their texts.

## Main results

* `readDigits_toDigits`, `Path.readPosition_toDigits`: reading inverts writing
* `toDigits_inj`: different numbers have different digits
-/

namespace DocumentTable

/-- The digits of a number are digits. -/
theorem all_isDigit_toDigits (n : Nat) : (Nat.toDigits 10 n).all Char.isDigit = true :=
  List.all_eq_true.2 fun _ h => Nat.isDigit_of_mem_toDigits (by decide) (by decide) h

/-- The digits of a number read back as the number. -/
theorem readDigits_toDigits (n : Nat) : readDigits (Nat.toDigits 10 n) = some n := by
  have nonempty : (Nat.toDigits 10 n).isEmpty = false := by
    simp
  have value : digitsValue (Nat.toDigits 10 n) 0 = n := by
    have := Nat.ofDigitChars_toDigits (b := 10) (n := n) (by decide) (by decide)
    rwa [Nat.ofDigitChars_eq_foldl] at this
  rw [readDigits, nonempty, all_isDigit_toDigits, value]
  rfl

/-- Different numbers have different digits. -/
theorem toDigits_inj {m n : Nat} (h : Nat.toDigits 10 m = Nat.toDigits 10 n) : m = n := by
  have := congrArg readDigits h
  simpa only [readDigits_toDigits, Option.some.injEq] using this

/-- Text without a sign is read as its digits are. -/
theorem readUnsigned_of_isDigit {digits : List Char} (h : digits.all Char.isDigit = true) :
    readUnsigned digits = readDigits digits := by
  cases digits with
  | nil => rfl
  | cons c rest =>
      unfold readUnsigned
      split
      · next heq =>
          obtain ⟨rfl, -⟩ := List.cons.inj heq
          simp [List.all_cons] at h
      · rfl

namespace Path

/-- The digits of a position read back as the position. -/
theorem readPosition_toDigits (i : UInt64) :
    readPosition (Nat.toDigits 10 i.toNat) = some i := by
  rw [readPosition, readUnsigned_of_isDigit (all_isDigit_toDigits _), readDigits_toDigits,
    Option.bind_some, if_pos i.toNat_lt]
  simp

end Path

end DocumentTable
