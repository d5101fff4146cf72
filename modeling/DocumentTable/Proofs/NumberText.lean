import DocumentTable.Proofs.Decimal
import DocumentTable.Proofs.Reader
import DocumentTable.Proofs.Utf8

/-!
# Numbers in texts

A number has no end of its own: its text ends where the next byte cannot continue it. In a document
that byte separates or closes, or the text is over.

## Main definitions

* `Json.Delimited`: what may follow a value in a document
* `Json.IsUnsigned`: the bytes of a number behind its sign

## Main results

* `Json.reads_integer`: an integer is read from what it is printed as
* `Json.exists_isUnsigned`: the text of every number is a sign and the bytes of a number
* `Json.IsUnsigned.skips`: such bytes are passed over as a whole
-/

namespace DocumentTable

open Reader (Reads)

/-! ### Bytes of digits -/

/-- The bytes of characters of one byte. -/
def asciiBytes (chars : List Char) : List UInt8 :=
  chars.map fun c => UInt8.ofNat c.toNat

/-- The digits have consecutive numbers, from that of the zero to that of the nine. -/
theorem toNat_of_isDigit {c : Char} (h : c.isDigit = true) : 48 ≤ c.toNat ∧ c.toNat ≤ 57 := by
  rw [Char.isDigit, Bool.and_eq_true, decide_eq_true_eq, decide_eq_true_eq] at h
  exact ⟨UInt32.le_iff_toNat_le.1 h.1, UInt32.le_iff_toNat_le.1 h.2⟩

/-- The byte of a digit is one, so that what is printed in digits is read as digits. -/
theorem isDigit_ofNat {c : Char} (h : c.isDigit = true) :
    Reader.isDigit (UInt8.ofNat c.toNat) = true := by
  obtain ⟨low, high⟩ := toNat_of_isDigit h
  have small : c.toNat % 256 = c.toNat := Nat.mod_eq_of_lt (by omega)
  rw [Reader.isDigit, Bool.and_eq_true, decide_eq_true_eq, decide_eq_true_eq,
    UInt8.le_iff_toNat_le, UInt8.le_iff_toNat_le, UInt8.toNat_ofNat', small]
  exact ⟨low, high⟩

theorem isDigit_asciiBytes {digits : List Char} (h : digits.all Char.isDigit = true) :
    ∀ b ∈ asciiBytes digits, Reader.isDigit b = true := by
  intro b mem
  obtain ⟨c, digit, rfl⟩ := List.mem_map.1 mem
  exact isDigit_ofNat (List.all_eq_true.1 h c digit)

/-- Digits are encoded in one byte each, so that a run of them has as many bytes as characters. -/
theorem flatMap_utf8EncodeChar {digits : List Char} (h : digits.all Char.isDigit = true) :
    digits.flatMap String.utf8EncodeChar = asciiBytes digits := by
  induction digits with
  | nil => rfl
  | cons c digits ih =>
      rw [List.all_cons, Bool.and_eq_true] at h
      have small : c.toNat < 128 := Nat.lt_of_le_of_lt (toNat_of_isDigit h.1).2 (by decide)
      rw [List.flatMap_cons, utf8EncodeChar_ascii small, ih h.2]
      rfl

/-- The number of a run of digits is at least that of the digits before it. Room for the whole run
is therefore room for each part of it. -/
theorem le_digitsValue (digits : List Char) (start : Nat) : start ≤ digitsValue digits start := by
  induction digits generalizing start with
  | nil => exact Nat.le_refl start
  | cons c digits ih =>
      have step := ih (10 * start + digitValue c)
      rw [digitsValue, List.foldl_cons]
      exact Nat.le_trans (by omega) step

/-- A positive number does not start with a zero, which a reader would not let other digits follow.
-/
theorem head?_digitsOf {n : Nat} (h : 0 < n) : (digitsOf n).head? ≠ some '0' := by
  induction n using Nat.strongRecOn with
  | ind n ih =>
      by_cases small : n < 10
      · have all : ∀ d : Fin 10, 0 < d.val → Nat.digitChar d ≠ '0' := by decide
        rw [digitsOf, Nat.toDigits_of_lt_base small]
        exact fun same => all ⟨n, small⟩ h (Option.some.inj same)
      · have shorter : n / 10 < n := Nat.div_lt_self h (by decide)
        have start := ih (n / 10) shorter (by omega)
        rw [digitsOf, Nat.toDigits_of_base_le (by decide) (Nat.not_lt.1 small),
          List.head?_append_of_ne_nil _ Nat.toDigits_ne_nil]
        exact start

namespace Json

/-- What may follow a value in the text of a document: nothing, or a byte that separates or
closes. -/
def Delimited (rest : List UInt8) : Prop :=
  ∀ b ∈ rest.head?, b = 0x2C ∨ b = 0x5D ∨ b = 0x7D

theorem not_isBlank_of_isDigit {b : UInt8} (h : Reader.isDigit b = true) :
    Reader.isBlank b = false := by
  rw [Reader.isDigit, Bool.and_eq_true, decide_eq_true_eq] at h
  rw [Reader.isBlank]
  simp only [Bool.or_eq_false_iff, decide_eq_false_iff_not]
  refine ⟨⟨⟨?_, ?_⟩, ?_⟩, ?_⟩ <;> rintro rfl <;> exact absurd h.1 (by decide)

theorem Delimited.nil : Delimited [] :=
  nofun

theorem Delimited.comma (rest : List UInt8) : Delimited (0x2C :: rest) := by
  rintro b ⟨⟩
  exact .inl rfl

theorem Delimited.bracket (rest : List UInt8) : Delimited (0x5D :: rest) := by
  rintro b ⟨⟩
  exact .inr (.inl rfl)

theorem Delimited.brace (rest : List UInt8) : Delimited (0x7D :: rest) := by
  rintro b ⟨⟩
  exact .inr (.inr rfl)

/-- What ends a number is no digit of it. -/
theorem Delimited.not_isDigit {rest : List UInt8} (h : Delimited rest) :
    ∀ b ∈ rest.head?, Reader.isDigit b = false := by
  intro b first
  rcases h b first with rfl | rfl | rfl <;> rfl

/-- The longest run of digits is the one before something else. Without the second hypothesis the
reader would go on into what follows. -/
theorem reads_takeDigits {digits rest : List UInt8} (h : ∀ b ∈ digits, Reader.isDigit b = true)
    (stop : ∀ b ∈ rest.head?, Reader.isDigit b = false) :
    Reader.takeDigits.Reads (digits ++ rest) digits rest := by
  show Except.ok (_, _) = Except.ok (_, _)
  rw [List.takeWhile_append_of_pos h, List.dropWhile_append_of_pos h]
  cases rest with
  | nil => rw [List.takeWhile_nil, List.dropWhile_nil, List.append_nil]
  | cons b rest =>
      have other : ¬Reader.isDigit b = true := by
        rw [stop b rfl]
        decide
      rw [List.takeWhile_cons_of_neg other, List.dropWhile_cons_of_neg other, List.append_nil]

/-! ### Integers -/

/-- Digits whose number has room in a word are all kept. A reader counts those that have none
instead, and the number becomes a decimal. -/
theorem append_eq {digits : List Char} {start : Nat} (h : digits.all Char.isDigit = true)
    (room : digitsValue digits start < UInt64.size) :
    Reader.Significand.append start (asciiBytes digits) = ⟨digitsValue digits start, 0⟩ := by
  induction digits generalizing start with
  | nil => rfl
  | cons c digits ih =>
      rw [List.all_cons, Bool.and_eq_true] at h
      obtain ⟨low, high⟩ := toNat_of_isDigit h.1
      have digit :
          start * 10 + ((UInt8.ofNat c.toNat).toNat - 0x30) = 10 * start + digitValue c := by
        have zero : digitValue c = c.toNat - 48 := rfl
        rw [UInt8.toNat_ofNat', zero]
        omega
      have grows : 10 * start + digitValue c ≤ digitsValue digits (10 * start + digitValue c) :=
        le_digitsValue digits _
      rw [asciiBytes, List.map_cons, Reader.Significand.append, digit,
        if_pos (Nat.lt_of_le_of_lt grows room)]
      exact ih h.2 room

/-- All digits of a number that has room in a word are kept, and nothing is counted. -/
theorem append_digitsOf {n : Nat} (room : n < UInt64.size) :
    Reader.Significand.append 0 (asciiBytes (digitsOf n)) = ⟨n, 0⟩ := by
  have value := digitsValue_digitsOf n
  rw [append_eq (all_isDigit_digitsOf n) (by rwa [value]), value]

/-- Digits that start a number: there are some, and a zero among them only starts them when it is
the only one. -/
structure StartsNumber (digits : List UInt8) : Prop where
  all : ∀ b ∈ digits, Reader.isDigit b = true
  ne_nil : digits ≠ []
  zero : digits.head? = some 0x30 → digits.length = 1

/-- Digits start a number when a zero in front is the only one of them. -/
theorem StartsNumber.of_chars {digits : List Char} (all : digits.all Char.isDigit = true)
    (ne_nil : digits ≠ []) (zero : digits.head? = some '0' → digits.length = 1) :
    StartsNumber (asciiBytes digits) where
  all := isDigit_asciiBytes all
  ne_nil := by
    rw [asciiBytes, Ne, List.map_eq_nil_iff]
    exact ne_nil
  zero := by
    intro first
    rw [asciiBytes, List.length_map]
    refine zero ?_
    rw [asciiBytes, List.head?_map, Option.map_eq_some_iff] at first
    obtain ⟨c, first, same⟩ := first
    have digit : c.isDigit = true := List.all_eq_true.1 all c (List.mem_of_head? first)
    obtain ⟨low, high⟩ := toNat_of_isDigit digit
    have number := congrArg UInt8.toNat same
    rw [UInt8.toNat_ofNat', Nat.mod_eq_of_lt (by omega)] at number
    rw [first, ← Char.ofNat_toNat c, number]
    rfl

/-- Digits that do not start with a zero start a number, however many there are. -/
theorem StartsNumber.of_head? {digits : List Char} (all : digits.all Char.isDigit = true)
    (ne_nil : digits ≠ []) (first : digits.head? ≠ some '0') : StartsNumber (asciiBytes digits) :=
  .of_chars all ne_nil fun zero => absurd zero first

/-- There is no more behind a zero. This is what a reader checks before it goes on. -/
theorem StartsNumber.not_padded {digits : List UInt8} (h : StartsNumber digits) :
    ¬(digits.head? = some 0x30 ∧ 1 < digits.length) := by
  rintro ⟨first, more⟩
  rw [h.zero first] at more
  exact absurd more (by decide)

/-- The digits that a number is printed with start a number, those of zero included. -/
theorem startsNumber_digitsOf (n : Nat) : StartsNumber (asciiBytes (digitsOf n)) := by
  refine .of_chars (all_isDigit_digitsOf n) (digitsOf_ne_nil n) fun first => ?_
  rcases Nat.eq_zero_or_pos n with rfl | positive
  · rfl
  · exact absurd first (head?_digitsOf positive)

/-- An integer without a sign. What is made of its digits is a hypothesis, since that depends on the
sign before them. -/
theorem reads_unsignedNumber {n : Nat} (room : n < UInt64.size) {negative : Bool} {m : Number}
    (made : Reader.makeInteger negative n = pure m) {rest : List UInt8} (h : Delimited rest) :
    (Reader.readUnsignedNumber negative).Reads (asciiBytes (digitsOf n) ++ rest) m rest := by
  have starts := startsNumber_digitsOf n
  obtain ⟨b, following, digits⟩ := List.exists_cons_of_ne_nil starts.ne_nil
  have digit : Reader.isDigit b = true := starts.all b (digits ▸ List.mem_cons_self)
  have noZero : ¬(b = 0x30 && decide (1 < (asciiBytes (digitsOf n)).length)) = true := by
    rw [Bool.and_eq_true, decide_eq_true_eq, decide_eq_true_eq]
    rintro ⟨rfl, more⟩
    exact starts.not_padded ⟨by rw [digits]; rfl, more⟩
  refine Reader.reads_bind.2 ⟨some b, _, Reader.reads_peek.2 ⟨by rw [digits]; rfl, rfl⟩, ?_⟩
  dsimp only
  rw [digit]
  refine Reader.reads_bind.2 ⟨_, _, reads_takeDigits starts.all h.not_isDigit, ?_⟩
  rw [if_neg noZero, append_digitsOf room]
  refine Reader.reads_bind.2 ⟨rest.head?, rest, Reader.reads_peek.2 ⟨rfl, rfl⟩, ?_⟩
  split
  · next point => exact absurd (h _ point) (by decide)
  · next letter => exact absurd (h _ letter) (by decide)
  · next letter => exact absurd (h _ letter) (by decide)
  · rw [if_pos rfl, made]
    exact Reader.reads_pure.2 ⟨rfl, rfl⟩

/-- The bytes of a sign. -/
def signBytes (negative : Bool) : List UInt8 :=
  if negative then [0x2D] else []

theorem bytesOf_signed (negative : Bool) (text : List Char) :
    bytesOf (String.ofList ((if negative then ['-'] else []) ++ text)) =
      signBytes negative ++ text.flatMap String.utf8EncodeChar := by
  rw [bytesOf_ofList, List.flatMap_append]
  cases negative <;> rfl

/-- An integer is printed as its sign and the digits of its absolute value. -/
theorem bytesOf_toString (n : Int) :
    bytesOf (toString n) = signBytes (n < 0) ++ asciiBytes (digitsOf n.natAbs) := by
  have digits := bytesOf_signed (n < 0) (digitsOf n.natAbs)
  rw [flatMap_utf8EncodeChar (all_isDigit_digitsOf _)] at digits
  rw [← digits]
  cases n with
  | ofNat n => rfl
  | negSucc n =>
      show bytesOf ("-" ++ String.ofList (digitsOf (n + 1))) = _
      rw [if_pos (by simp), bytesOf_append, String.ofList_append, bytesOf_append]
      rfl

/-- A number starts with its sign or with a digit. It is a token of its own, as neither of them is a
blank. -/
theorem StartsNumber.exists_first {digits : List UInt8} (h : StartsNumber digits) (negative : Bool)
    (rest : List UInt8) :
    ∃ b tail, signBytes negative ++ digits ++ rest = b :: tail ∧ Reader.isBlank b = false ∧
      (b = 0x2D ∨ Reader.isDigit b = true) ∧ (negative = false → b ≠ 0x2D) := by
  obtain ⟨b, following, rfl⟩ := List.exists_cons_of_ne_nil h.ne_nil
  have digit := h.all b List.mem_cons_self
  cases negative with
  | true => exact ⟨0x2D, b :: following ++ rest, rfl, rfl, .inl rfl, nofun⟩
  | false =>
      refine ⟨b, following ++ rest, rfl, not_isBlank_of_isDigit digit, .inr digit, ?_⟩
      rintro _ rfl
      exact absurd digit (by decide)

/-- The sign and the absolute value of an integer make that integer, if it is in the range of those
that are read exactly. -/
theorem makeInteger_eq {n : Int} (inRange : IntegerInRange n) :
    Reader.makeInteger (n < 0) n.natAbs = pure (.integer n inRange) := by
  have value : (if decide (n < 0) then -(n.natAbs : Int) else (n.natAbs : Int)) = n := by
    split
    · next negative =>
        have := of_decide_eq_true negative
        omega
    · next positive =>
        have := of_decide_eq_false (Bool.not_eq_true _ ▸ positive)
        omega
  have noFloat : ¬(decide (n < 0) && (decide (n.natAbs = 0) ||
      decide (0x8000000000000000 < n.natAbs))) = true := by
    have low := inRange.1
    simp only [Bool.and_eq_true, Bool.or_eq_true, decide_eq_true_eq]
    omega
  rw [Reader.makeInteger, if_neg noFloat, value, Number.ofInt?, dif_pos inRange]

/-- An integer is read from what it is printed as, in front of anything in which no number goes on.
-/
theorem reads_integer {n : Int} (inRange : IntegerInRange n) {rest : List UInt8}
    (h : Delimited rest) :
    Reader.readNumber.Reads (bytesOf (toString n) ++ rest) (.integer n inRange) rest := by
  have room : n.natAbs < UInt64.size := by
    obtain ⟨low, high⟩ := inRange
    show n.natAbs < 18446744073709551616
    omega
  have unsigned := reads_unsignedNumber room (makeInteger_eq inRange) h
  obtain ⟨b, tail, bytes, -, -, minus⟩ :=
    (startsNumber_digitsOf n.natAbs).exists_first (n < 0) rest
  rw [bytesOf_toString]
  refine Reader.reads_bind.2 ⟨some b, _, Reader.reads_peek.2 ⟨by rw [bytes]; rfl, rfl⟩, ?_⟩
  by_cases negative : n < 0
  · rw [decide_eq_true negative] at bytes unsigned ⊢
    cases bytes
    exact Reader.reads_bind.2 ⟨(), _, Reader.reads_advance.2 rfl, unsigned⟩
  · rw [decide_eq_false negative] at minus unsigned ⊢
    split
    · next same => exact absurd (Option.some.inj same) (minus rfl)
    · exact unsigned

/-! ### Numbers of either kind -/

/-- The bytes of an exponent, if there is one: its letter, a sign and digits. -/
inductive IsExponent : List UInt8 → Prop
  | absent : IsExponent []
  | present {sign : UInt8} {power : List UInt8} : (sign = 0x2B ∨ sign = 0x2D) →
      (∀ b ∈ power, Reader.isDigit b = true) → power ≠ [] → IsExponent (0x65 :: sign :: power)

/-- The bytes of a number behind its sign: digits, perhaps a point and more digits, perhaps an
exponent. -/
inductive IsUnsigned : List UInt8 → Prop
  | whole {digits exponent : List UInt8} : StartsNumber digits → IsExponent exponent →
      IsUnsigned (digits ++ exponent)
  | point {digits fraction exponent : List UInt8} : StartsNumber digits →
      (∀ b ∈ fraction, Reader.isDigit b = true) → fraction ≠ [] → IsExponent exponent →
      IsUnsigned (digits ++ 0x2E :: (fraction ++ exponent))

/-- Behind the digits there is no point, neither with an exponent nor without one. -/
theorem IsExponent.head?_ne {exponent rest : List UInt8} (h : IsExponent exponent)
    (delimited : Delimited rest) : (exponent ++ rest).head? ≠ some 0x2E := by
  cases h with
  | absent => exact fun point => absurd (delimited _ point) (by decide)
  | present => exact fun point => absurd (Option.some.inj point) (by decide)

/-- Behind the digits there is no further digit, neither with an exponent nor without one. -/
theorem IsExponent.not_isDigit {exponent rest : List UInt8} (h : IsExponent exponent)
    (delimited : Delimited rest) : ∀ b ∈ (exponent ++ rest).head?, Reader.isDigit b = false := by
  cases h with
  | absent => exact delimited.not_isDigit
  | present =>
      rintro b ⟨⟩
      rfl

/-- An exponent is passed over, or nothing is when there is none. What follows must not look like
one. -/
theorem IsExponent.skips {exponent rest : List UInt8} (h : IsExponent exponent)
    (delimited : Delimited rest) :
    Reads (do
      match ← Reader.peek with
      | some 0x65 => Reader.skipExponent
      | some 0x45 => Reader.skipExponent
      | _ => pure ()) (exponent ++ rest) () rest := by
  refine Reader.reads_bind.2 ⟨_, _, Reader.reads_peek.2 ⟨rfl, rfl⟩, ?_⟩
  cases h with
  | absent =>
      rw [List.nil_append]
      split
      · next letter => exact absurd (delimited _ letter) (by decide)
      · next letter => exact absurd (delimited _ letter) (by decide)
      · exact Reader.reads_pure.2 ⟨rfl, rfl⟩
  | @present sign power isSign all ne_nil =>
      have digits := reads_takeDigits all delimited.not_isDigit
      have more : ¬power.isEmpty = true := by simp [ne_nil]
      refine Reader.reads_bind.2 ⟨(), sign :: (power ++ rest), Reader.reads_advance.2 rfl, ?_⟩
      refine Reader.reads_bind.2 ⟨_, _, Reader.reads_peek.2 ⟨rfl, rfl⟩, ?_⟩
      have finish : Reads (do if (← Reader.takeDigits).isEmpty then Reader.fault .invalidNumber)
          (power ++ rest) () rest := by
        refine Reader.reads_bind.2 ⟨_, _, digits, ?_⟩
        rw [if_neg more]
        exact Reader.reads_pure.2 ⟨rfl, rfl⟩
      rcases isSign with rfl | rfl
      · exact Reader.reads_bind.2 ⟨(), _, Reader.reads_advance.2 rfl, finish⟩
      · exact Reader.reads_bind.2 ⟨(), _, Reader.reads_advance.2 rfl, finish⟩

/-- The bytes of a number are passed over as a whole. Passing over is done before the value is
computed, so it has to find the end alone. -/
theorem IsUnsigned.skips {unsigned rest : List UInt8} (h : IsUnsigned unsigned)
    (delimited : Delimited rest) : Reader.skipNumber.Reads (unsigned ++ rest) () rest := by
  have formed {digits : List UInt8} (starts : StartsNumber digits) :
      ¬(digits.isEmpty || (digits.head? = some 0x30 && decide (1 < digits.length))) = true := by
    rw [Bool.or_eq_true, Bool.and_eq_true, decide_eq_true_eq, decide_eq_true_eq, not_or]
    exact ⟨fun empty => starts.ne_nil (List.isEmpty_iff.1 empty), starts.not_padded⟩
  cases h with
  | @whole digits exponent starts isExponent =>
      have digitsRead := reads_takeDigits starts.all (isExponent.not_isDigit delimited)
      have tail := isExponent.skips delimited
      rw [List.append_assoc]
      refine Reader.reads_bind.2 ⟨_, _, digitsRead, ?_⟩
      rw [if_neg (formed starts)]
      obtain ⟨next, mid, peeks, read⟩ := Reader.reads_bind.1 tail
      refine Reader.reads_bind.2 ⟨next, mid, peeks, ?_⟩
      split
      · exact absurd (Reader.reads_peek.1 peeks).1 (isExponent.head?_ne delimited)
      · exact read
      · exact read
      · next small capital =>
          split at read
          · exact absurd rfl small
          · exact absurd rfl capital
          · exact read
  | @point digits fraction exponent starts all ne_nil isExponent =>
      have more : ¬fraction.isEmpty = true := by simp [ne_nil]
      have digitsRead : Reader.takeDigits.Reads
          (digits ++ 0x2E :: (fraction ++ exponent ++ rest)) digits
          (0x2E :: (fraction ++ exponent ++ rest)) := by
        refine reads_takeDigits starts.all ?_
        rintro b ⟨⟩
        rfl
      have fractionRead := reads_takeDigits all (isExponent.not_isDigit delimited)
      rw [List.append_assoc, List.cons_append]
      refine Reader.reads_bind.2 ⟨_, _, digitsRead, ?_⟩
      rw [if_neg (formed starts)]
      refine Reader.reads_bind.2 ⟨_, _, Reader.reads_peek.2 ⟨rfl, rfl⟩, ?_⟩
      refine Reader.reads_bind.2 ⟨(), _, Reader.reads_advance.2 rfl, ?_⟩
      rw [List.drop_succ_cons, List.drop_zero, List.append_assoc]
      refine Reader.reads_bind.2 ⟨_, _, fractionRead, ?_⟩
      rw [if_neg more]
      exact isExponent.skips delimited

variable {digits fraction : List Char}

theorem IsUnsigned.of_whole (starts : StartsNumber (asciiBytes digits))
    (all : digits.all Char.isDigit = true) :
    IsUnsigned (digits.flatMap String.utf8EncodeChar) := by
  have whole := IsUnsigned.whole starts .absent
  rwa [List.append_nil, ← flatMap_utf8EncodeChar all] at whole

/-- Digits with a point between them are a number, when there are some on both sides. -/
theorem IsUnsigned.of_point (starts : StartsNumber (asciiBytes digits))
    (all : digits.all Char.isDigit = true) (fractionAll : fraction.all Char.isDigit = true)
    (ne_nil : fraction ≠ []) :
    IsUnsigned ((digits ++ '.' :: fraction).flatMap String.utf8EncodeChar) := by
  have some : asciiBytes fraction ≠ [] := by
    rw [asciiBytes, Ne, List.map_eq_nil_iff]
    exact ne_nil
  have point := IsUnsigned.point starts (isDigit_asciiBytes fractionAll) some .absent
  rw [List.append_nil] at point
  rw [List.flatMap_append, List.flatMap_cons, flatMap_utf8EncodeChar all,
    flatMap_utf8EncodeChar fractionAll]
  exact point

/-- Digits with a point set among them, or with zeros up to the point, are a number. -/
theorem isUnsigned_setPoint (layout : DecimalLayout) (all : digits.all Char.isDigit = true)
    (ne_nil : digits ≠ []) (first : digits.head? ≠ some '0') (point : Int) :
    IsUnsigned ((layout.setPoint digits point).flatMap String.utf8EncodeChar) := by
  have zeros (n : Nat) : (List.replicate n '0').all Char.isDigit = true := by simp
  -- the point stands before the digits, behind them or among them
  rw [DecimalLayout.setPoint]
  split
  · have fraction : (List.replicate (-point).toNat '0' ++ digits).all Char.isDigit = true := by
      rw [List.all_append, zeros, all, Bool.and_self]
    have leading : StartsNumber (asciiBytes ['0']) := .of_chars rfl (by simp) fun _ => rfl
    exact .of_point leading rfl fraction (by simp [ne_nil])
  · split
    · have padded (n : Nat) : (digits ++ List.replicate n '0').all Char.isDigit = true := by
        rw [List.all_append, all, zeros, Bool.and_self]
      have starts (n : Nat) : StartsNumber (asciiBytes (digits ++ List.replicate n '0')) := by
        refine .of_head? (padded n) (by simp [ne_nil]) ?_
        rwa [List.head?_append_of_ne_nil _ ne_nil]
      split
      · exact .of_point (starts _) (padded _) rfl (by simp)
      · rw [List.append_nil]
        exact .of_whole (starts _) (padded _)
    · next positive inside =>
        have length : point.toNat < digits.length := by omega
        have parts := List.take_append_drop point.toNat digits
        have both : (digits.take point.toNat).all Char.isDigit = true ∧
            (digits.drop point.toNat).all Char.isDigit = true := by
          rw [← Bool.and_eq_true, ← List.all_append, parts, all]
        have front : digits.take point.toNat ≠ [] := by
          rw [← List.length_pos_iff, List.length_take]
          omega
        have starts : StartsNumber (asciiBytes (digits.take point.toNat)) := by
          have same : (digits.take point.toNat ++ digits.drop point.toNat).head? =
              (digits.take point.toNat).head? := List.head?_append_of_ne_nil _ front
          rw [parts] at same
          exact .of_head? both.1 front (same ▸ first)
        refine .of_point starts both.1 both.2 ?_
        rw [← List.length_pos_iff, List.length_drop]
        omega

/-- Digits with an exponent are a number, of whatever sign the exponent is. -/
theorem isUnsigned_setExponent (all : digits.all Char.isDigit = true) (ne_nil : digits ≠ [])
    (exponent : Int) :
    IsUnsigned ((DecimalLayout.setExponent digits exponent).flatMap String.utf8EncodeChar) := by
  obtain ⟨first, rest, rfl⟩ := List.exists_cons_of_ne_nil ne_nil
  rw [List.all_cons, Bool.and_eq_true] at all
  have one : [first].all Char.isDigit = true := by
    rw [List.all_cons, all.1]
    rfl
  have starts : StartsNumber (asciiBytes [first]) := .of_chars one (by simp) fun _ => rfl
  have power : IsExponent (('e' :: (if exponent < 0 then '-' else '+') ::
      digitsOf exponent.natAbs).flatMap String.utf8EncodeChar) := by
    have number := startsNumber_digitsOf exponent.natAbs
    rw [List.flatMap_cons, List.flatMap_cons, flatMap_utf8EncodeChar (all_isDigit_digitsOf _)]
    split
    · exact .present (.inr rfl) number.all number.ne_nil
    · exact .present (.inl rfl) number.all number.ne_nil
  rw [DecimalLayout.setExponent, List.flatMap_append, List.flatMap_append]
  cases rest with
  | nil =>
      rw [List.take_succ_cons, List.take_zero, flatMap_utf8EncodeChar one]
      exact .whole starts power
  | cons second others =>
      have more : asciiBytes (second :: others) ≠ [] := List.cons_ne_nil _ _
      have point := IsUnsigned.point starts (isDigit_asciiBytes all.2) more power
      rw [List.take_succ_cons, List.take_zero, flatMap_utf8EncodeChar one, List.append_assoc]
      rw [← flatMap_utf8EncodeChar all.2] at point
      exact point

/-- The text of a decimal is that of a number behind its sign, in each layout and for each exponent.
-/
theorem isUnsigned_set (layout : DecimalLayout) (d : Decimal) :
    IsUnsigned ((layout.set d).flatMap String.utf8EncodeChar) := by
  have zero : StartsNumber (asciiBytes ['0']) := .of_chars rfl (by simp) fun _ => rfl
  rw [DecimalLayout.set]
  split
  · split
    · exact .of_point zero rfl rfl (by simp)
    · exact .of_whole zero rfl
  · next nonzero =>
      have all := all_isDigit_digitsOf d.coefficient
      have ne_nil := digitsOf_ne_nil d.coefficient
      have first := head?_digitsOf (Nat.pos_of_ne_zero nonzero)
      dsimp only
      split
      · exact isUnsigned_setPoint layout all ne_nil first _
      · exact isUnsigned_setExponent all ne_nil _

/-- The text of a number is a sign and the bytes of a number behind it, for integers and for
decimals. -/
theorem exists_isUnsigned (n : Number) :
    ∃ negative unsigned, bytesOf n.text = signBytes negative ++ unsigned ∧
      IsUnsigned unsigned := by
  cases n with
  | integer n inRange =>
      refine ⟨_, _, bytesOf_toString n, ?_⟩
      rw [← List.append_nil (asciiBytes _)]
      exact .whole (startsNumber_digitsOf n.natAbs) .absent
  | float x => exact ⟨_, _, bytesOf_signed x.negative _, isUnsigned_set _ _⟩

/-- A number that need not be an integer also starts with its sign or with a digit. -/
theorem IsUnsigned.exists_first {unsigned : List UInt8} (h : IsUnsigned unsigned) (negative : Bool)
    (rest : List UInt8) :
    ∃ b tail, signBytes negative ++ unsigned ++ rest = b :: tail ∧ Reader.isBlank b = false ∧
      (b = 0x2D ∨ Reader.isDigit b = true) ∧ (negative = false → b ≠ 0x2D) := by
  obtain ⟨digits, tail, rfl, starts⟩ : ∃ digits tail, unsigned = digits ++ tail ∧
      StartsNumber digits := by
    cases h with
    | whole starts _ => exact ⟨_, _, rfl, starts⟩
    | point starts _ _ _ => exact ⟨_, _, rfl, starts⟩
  have first := starts.exists_first negative (tail ++ rest)
  rwa [← List.append_assoc, List.append_assoc (signBytes negative)] at first

end Json

end DocumentTable
