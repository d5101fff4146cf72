import DocumentTable.Proofs.Marshaller
import DocumentTable.Proofs.Precision

/-!
# Numbers that are read and written back

An attribute that is decoded and encoded again is as before but for the spelling of its numbers. A
number keeps its value when it is an integer of 64 bits or has at most fifteen digits. Any other one
becomes a binary64 number on its way, and what comes back may differ from the sixteenth digit on.

## Main definitions

* `Numeral.value`, `Numeral.Storable`: the number of a numeral, and the numerals of a table
* `Attribute.Plain`: strings, numbers, booleans, nulls, lists and maps
* `Attribute.Respelled`: equal but for the texts of numbers
* `Marshaller.KeepsNumbers`: every number comes back with its value

## Main results

* `Json.Number.exists_numeral`: what comes back of the text of a number
* `Marshaller.json_respells`: what comes back of an attribute
* `Marshaller.not_keepsNumbers_json`: the first positive integer of more than 64 bits is lost
-/

namespace DocumentTable

/-! ### Numerals -/

namespace Numeral

/-- The number that a numeral stands for. -/
def value (n : Numeral) : ℚ :=
  if n.negative then -n.magnitude.value else n.magnitude.value

/-- How many digits a numeral has between its first and its last one other than zero. -/
def digits (n : Numeral) : Nat :=
  (digitsOf n.magnitude.strip.coefficient).length

/-- The numerals that a table stores: at most 38 digits, and a magnitude from `1e-130` to `1e126`,
which is left out, or zero. -/
structure Storable (n : Numeral) : Prop where
  digits_le : n.digits ≤ 38
  range : n.magnitude.value = 0 ∨
    10 ^ (-130 : Int) ≤ n.magnitude.value ∧ n.magnitude.value < 10 ^ (126 : Int)

theorem abs_value (n : Numeral) : |n.value| = n.magnitude.value := by
  have nonneg : 0 ≤ n.magnitude.value := by
    rw [Decimal.value]
    positivity
  rw [value]
  split
  · rw [abs_neg, abs_of_nonneg nonneg]
  · exact abs_of_nonneg nonneg

/-- Digits are a numeral, without a point and without an exponent. -/
theorem readMagnitude_of_readDigits {text : List Char} {k : Nat} (h : readDigits text = some k) :
    readMagnitude text = some ⟨k, 0⟩ := by
  unfold readDigits at h
  split at h
  · cases h
  · next nonempty =>
      split at h
      · next all =>
          cases h
          have read : readMagnitude (text ++ []) = _ :=
            readMagnitude_whole (by simpa using nonempty) all (by simp) (by simp) rfl
          rwa [List.append_nil] at read
      · cases h

/-- An integer is a numeral, so that what is said of numerals holds for it. -/
theorem exists_read?_of_readInteger {text : List Char} {i : Int} (h : readInteger text = some i) :
    ∃ n, read? text = some n ∧ n.value = i := by
  unfold readInteger at h
  split at h
  · next digits =>
      cases read : readDigits digits with
      | none =>
          rw [read] at h
          cases h
      | some k =>
          rw [read] at h
          cases h
          refine ⟨⟨true, k, 0⟩, ?_, by simp [value, Decimal.value]⟩
          rw [read?, readMagnitude_of_readDigits read, Option.map_some]
  · next minus =>
      obtain ⟨k, read, rfl⟩ := Option.map_eq_some_iff.1 h
      refine ⟨⟨false, k, 0⟩, ?_, by simp [value, Decimal.value]⟩
      unfold readUnsigned at read
      split at read
      · rw [read?, readMagnitude_of_readDigits read, Option.map_some]
      · next plus =>
          unfold read?
          split
          · exact absurd rfl (minus _)
          · exact absurd rfl (plus _)
          · rw [readMagnitude_of_readDigits read, Option.map_some]

/-- A numeral below the limit of the range is below the largest binary64 number, and rounds to one.
-/
theorem Storable.lt_two_pow {n : Numeral} (h : n.Storable) :
    n.magnitude.value < 2 ^ (1023 : Int) := by
  rcases h.range with zero | ⟨-, high⟩
  · rw [zero]
    positivity
  · refine high.trans_le ?_
    calc (10 : ℚ) ^ (126 : Int) ≤ (2 ^ 4) ^ (126 : Int) :=
          zpow_le_zpow_left₀ (by decide) (by norm_num) (by norm_num)
      _ = 2 ^ (504 : Int) := by
          rw [← zpow_natCast, ← zpow_mul]
          rfl
      _ ≤ 2 ^ (1023 : Int) := zpow_le_zpow_right₀ (by norm_num) (by decide)

end Numeral

/-- A text is that of a number that a table stores. -/
def IsStorable (text : String) : Prop :=
  ∃ n, Numeral.read? text.toList = some n ∧ n.Storable

/-- Two texts stand for the same number. -/
def SameNumber (text text' : String) : Prop :=
  ∃ n n', Numeral.read? text.toList = some n ∧ Numeral.read? text'.toList = some n' ∧
    n'.value = n.value

/-- A text stands for an integer of 64 bits, or for a number with at most fifteen digits. -/
def IsShort (text : String) : Prop :=
  (∃ i, readInteger text.toList = some i ∧ Json.IntegerInRange i) ∨
    ∃ n, Numeral.read? text.toList = some n ∧ n.digits ≤ 15

/-- A text stands for the number of another one up to the fifteenth digit, and for the same number
if that one is short. -/
def ComesBack (text text' : String) : Prop :=
  (∃ n n', Numeral.read? text.toList = some n ∧ Numeral.read? text'.toList = some n' ∧
      |n'.value - n.value| ≤ |n.value| / 10 ^ 15) ∧
    (IsShort text → SameNumber text text')

theorem SameNumber.comesBack {text text' : String} (h : SameNumber text text') :
    ComesBack text text' := by
  refine ⟨?_, fun _ => h⟩
  obtain ⟨n, n', read, read', same⟩ := h
  refine ⟨n, n', read, read', ?_⟩
  rw [same, sub_self, abs_zero]
  positivity

/-! ### Numbers -/

namespace Json.Number

/-- The text of an integer stands for the integer, however many zeros were in front of it before. -/
theorem sameNumber_integer {text : String} {i : Int} (read : readInteger text.toList = some i)
    (inRange : IntegerInRange i) : SameNumber text (integer i inRange).text := by
  obtain ⟨n, read, value⟩ := Numeral.exists_read?_of_readInteger read
  obtain ⟨n', read', value'⟩ := Numeral.exists_read?_of_readInteger (readInteger_toString i)
  exact ⟨n, n', read, read', value'.trans value.symm⟩

/-- The text of the nearest binary64 number stands for a number close to the one before. With few
digits it stands for the very same number. -/
theorem comesBack_float {text : String} {n : Numeral} {x : Binary64}
    (read : Numeral.read? text.toList = some n) (storable : n.Storable)
    (negative : x.negative = n.negative) (covers : x.Covers n.magnitude.value)
    (short : IsShort text → n.digits ≤ 15) : ComesBack text (float x).text := by
  obtain ⟨d, set, value⟩ := Numeral.readMagnitude_set .document (x.shortest .toEven)
  have read' : Numeral.read? (float x).text.toList = some ⟨n.negative, d⟩ := by
    rw [← negative]
    show Numeral.read? (x.text .document).toList = _
    rw [Binary64.text, String.toList_ofList]
    exact Numeral.read?_signed set x.negative
  have covers' : x.Covers d.value := by
    rw [value]
    exact x.shortest_covers .toEven
  have values : n.value = (if n.negative then -n.magnitude.value else n.magnitude.value) ∧
      Numeral.value ⟨n.negative, d⟩ = (if n.negative then -d.value else d.value) := ⟨rfl, rfl⟩
  -- the bounds on the error are those of normal numbers, which zero is not
  rcases storable.range with zero | ⟨low, -⟩
  · -- only zero covers zero, and its text stands for zero
    rw [zero] at covers
    have significand : x.significand = 0 :=
      congrArg Binary64.significand covers.eq_zero.symm
    have none : d.value = 0 := by
      rw [value, Binary64.shortest, if_pos significand]
      exact Decimal.value_eq_zero.2 rfl
    refine SameNumber.comesBack ⟨n, _, read, read', ?_⟩
    rw [values.1, values.2, zero, none]
  · have normal := covers.normal low
    refine ⟨⟨n, _, read, read', ?_⟩, fun hshort => ⟨n, _, read, read', ?_⟩⟩
    · have near := covers.abs_sub_le_of_covers covers' normal
      rw [Numeral.abs_value, values.1, values.2]
      split
      · rw [neg_sub_neg, abs_sub_comm]
        exact near
      · exact near
    · -- fifteen digits are fewer than a binary64 number tells apart
      have few : n.magnitude.strip.coefficient < 10 ^ 15 :=
        (Nat.length_toDigits_le_iff (by decide) (by decide)).1 (short hshort)
      have exact : d.value = n.magnitude.value := by
        rw [← Decimal.value_strip n.magnitude] at covers ⊢
        rw [value]
        exact Binary64.shortest_value_of_covers .toEven few normal covers
      rw [values.1, values.2, exact]

/-- The text of a number that a table stores stands for a number of a document, whose text stands
for what has come back of it. -/
theorem exists_numeral {text : String} (h : IsStorable text) :
    ∃ number, ofText? text = some number ∧ ComesBack text number.text := by
  obtain ⟨n, read, storable⟩ := h
  unfold ofText?
  cases whole : (readInteger text.toList).bind ofInt? with
  | some number =>
      obtain ⟨i, readInt, inRange⟩ := Option.bind_eq_some_iff.1 whole
      rw [ofInt?] at inRange
      split at inRange
      · next fits =>
          cases inRange
          exact ⟨_, rfl, (sameNumber_integer readInt fits).comesBack⟩
      · cases inRange
  | none =>
      have nonneg : 0 ≤ n.magnitude.value := by
        rw [← Numeral.abs_value]
        exact abs_nonneg _
      obtain ⟨x, negative, covers⟩ :=
        Binary64.exists_covers n.negative nonneg storable.lt_two_pow
      have nearest : Binary64.ofDecimal? n.negative n.magnitude = some x := by
        rw [← negative]
        exact Binary64.ofDecimal?_of_covers covers
      rw [Binary64.Reading.ofText?_of_read? read nearest]
      refine ⟨float x, rfl, comesBack_float read storable negative covers ?_⟩
      rintro (⟨i, readInt, inRange⟩ | ⟨n', read', few⟩)
      · -- an integer in range is no float
        rw [readInt, Option.bind_some, ofInt?_value inRange] at whole
        cases whole
      · rw [read] at read'
        cases read'
        exact few

end Json.Number

/-! ### Attributes -/

namespace Attribute

mutual

/-- An attribute is made of strings, numbers whose texts have the given property, booleans, nulls,
lists and maps. -/
def Plain (holds : String → Prop) : Attribute → Prop
  | string _ => True
  | number text => holds text
  | bool _ => True
  | null b => b = true
  | list items => PlainItems holds items
  | map entries => PlainEntries holds entries
  | _ => False

/-- All attributes of a list are of this kind. -/
def PlainItems (holds : String → Prop) : List Attribute → Prop
  | [] => True
  | a :: rest => Plain holds a ∧ PlainItems holds rest

/-- All attributes of a map are of this kind. -/
def PlainEntries (holds : String → Prop) : List (String × Attribute) → Prop
  | [] => True
  | (_, a) :: rest => Plain holds a ∧ PlainEntries holds rest

end

mutual

/-- Two attributes are equal but for the texts of numbers, which are related. -/
def Respelled (same : String → String → Prop) : Attribute → Attribute → Prop
  | number text, number text' => same text text'
  | list items, list items' => RespelledItems same items items'
  | map entries, map entries' => RespelledEntries same entries entries'
  | a, b => a = b

/-- The attributes of two lists are equal but for the texts of numbers. -/
def RespelledItems (same : String → String → Prop) : List Attribute → List Attribute → Prop
  | [], [] => True
  | a :: rest, b :: rest' => Respelled same a b ∧ RespelledItems same rest rest'
  | _, _ => False

/-- The entries of two maps are equal but for the texts of numbers. -/
def RespelledEntries (same : String → String → Prop) :
    List (String × Attribute) → List (String × Attribute) → Prop
  | [], [] => True
  | (key, a) :: rest, (key', b) :: rest' =>
    key = key' ∧ Respelled same a b ∧ RespelledEntries same rest rest'
  | _, _ => False

end

end Attribute

namespace Marshaller

open Attribute

mutual

/-- A plain attribute that is decoded and encoded again. The induction is on the attribute, together
with its items and entries. -/
theorem exists_respelled : (a : Attribute) → a.Plain IsStorable →
    ∃ v, decodeJson a = .ok v ∧ a.Respelled ComesBack (encodeJson v)
  | .string s, _ => ⟨.string s, rfl, rfl⟩
  | .number text, h => by
      obtain ⟨number, read, comesBack⟩ := Json.Number.exists_numeral h
      refine ⟨.number number, ?_, comesBack⟩
      rw [decodeJson, decodeNumber, read]
  | .bool b, _ => ⟨.bool b, rfl, rfl⟩
  | .null b, h => by
      obtain rfl : b = true := h
      exact ⟨.null, rfl, rfl⟩
  | .list items, h => by
      obtain ⟨values, decoded, respelled⟩ := exists_respelledItems items h
      refine ⟨.array values, ?_, respelled⟩
      rw [decodeJson, decoded]
      rfl
  | .map entries, h => by
      obtain ⟨members, decoded, respelled⟩ := exists_respelledEntries entries h
      refine ⟨.object members, ?_, respelled⟩
      rw [decodeJson, decoded]
      rfl

theorem exists_respelledItems : (items : List Attribute) → PlainItems IsStorable items →
    ∃ values, decodeItems items = .ok values ∧
      RespelledItems ComesBack items (encodeItems values)
  | [], _ => ⟨[], rfl, trivial⟩
  | a :: rest, h => by
      obtain ⟨v, first, respelled⟩ := exists_respelled a h.1
      obtain ⟨values, others, respelledRest⟩ := exists_respelledItems rest h.2
      refine ⟨v :: values, ?_, respelled, respelledRest⟩
      rw [decodeItems, first, others]
      rfl

theorem exists_respelledEntries : (entries : List (String × Attribute)) →
    PlainEntries IsStorable entries → ∃ members, decodeEntries entries = .ok members ∧
      RespelledEntries ComesBack entries (encodeMembers members)
  | [], _ => ⟨[], rfl, trivial⟩
  | (key, a) :: rest, h => by
      obtain ⟨v, first, respelled⟩ := exists_respelled a h.1
      obtain ⟨members, others, respelledRest⟩ := exists_respelledEntries rest h.2
      refine ⟨(key, v) :: members, ?_, rfl, respelled, respelledRest⟩
      rw [decodeEntries, first, others]
      rfl

end

/-- Every number comes back with its value when an attribute is decoded and encoded again. -/
def KeepsNumbers (m : Marshaller) (holds : String → Prop) : Prop :=
  ∀ a : Attribute, a.Plain holds →
    ∃ v b, m.decode a = .ok v ∧ m.encode v = .ok b ∧ a.Respelled SameNumber b

/-- Plain attributes with the numbers that a table stores can be decoded and encoded again. What
comes back differs in the spelling of numbers only, of which those with at most fifteen digits and
the integers of 64 bits keep their values, and the others keep fifteen digits. Plain attributes are
those that values are encoded to; a set would come back as a list. -/
theorem json_respells (a : Attribute) (h : a.Plain IsStorable) :
    ∃ v b, json.decode a = .ok v ∧ json.encode v = .ok b ∧ a.Respelled ComesBack b := by
  obtain ⟨v, decoded, respelled⟩ := exists_respelled a h
  exact ⟨v, encodeJson v, decoded, rfl, respelled⟩

/-- A list with a decimal fraction that no binary64 number is equal to. -/
theorem json_respells_fraction : ∃ a : Attribute, a = .list [.number "0.1", .null true] ∧
    a.Plain IsStorable ∧
    ∃ v b, json.decode a = .ok v ∧ json.encode v = .ok b ∧ a.Respelled ComesBack b := by
  have storable : IsStorable "0.1" := by
    refine ⟨⟨false, 1, -1⟩, by decide, by decide, .inr ?_⟩
    rw [Decimal.value]
    norm_num
  have plain : (Attribute.list [.number "0.1", .null true]).Plain IsStorable :=
    ⟨storable, rfl, trivial⟩
  exact ⟨_, rfl, plain, json_respells _ plain⟩

/-- The first positive integer of more than 64 bits comes back as another number, although a table
stores it. -/
theorem not_keepsNumbers_json :
    IsStorable "18446744073709551616" ∧
      (∃ v, json.decode (.number "18446744073709551616") = .ok v ∧
        json.encode v = .ok (.number "1.8446744073709552e+19")) ∧
      ¬ json.KeepsNumbers IsStorable := by
  have read : Numeral.read? "18446744073709551616".toList =
      some ⟨false, 18446744073709551616, 0⟩ := by
    decide
  have storable : IsStorable "18446744073709551616" := by
    refine ⟨_, read, by decide, .inr ?_⟩
    rw [Decimal.value]
    norm_num
  have number : Json.Number.ofText? "18446744073709551616" =
      some (.float ⟨false, 0x10000000000000, 12, by decide⟩) := by
    decide +kernel
  have decoded : decodeJson (.number "18446744073709551616") =
      .ok (.number (.float ⟨false, 0x10000000000000, 12, by decide⟩)) := by
    rw [decodeJson, decodeNumber, number]
  have encoded : encodeJson (.number (.float ⟨false, 0x10000000000000, 12, by decide⟩)) =
      .number "1.8446744073709552e+19" := by
    rw [encodeJson]
    exact congrArg Attribute.number (by decide +kernel)
  have read' : Numeral.read? "1.8446744073709552e+19".toList =
      some ⟨false, 18446744073709552, 3⟩ := by
    decide
  refine ⟨storable, ⟨_, decoded, congrArg Except.ok encoded⟩, fun keeps => ?_⟩
  obtain ⟨v, b, decoded', encoded', same⟩ := keeps (.number "18446744073709551616") storable
  obtain rfl : _ = v := Except.ok.inj (decoded.symm.trans decoded')
  obtain rfl : _ = b := Except.ok.inj ((congrArg Except.ok encoded).symm.trans encoded')
  obtain ⟨n, n', hn, hn', value⟩ :
    SameNumber "18446744073709551616" "1.8446744073709552e+19" := same
  rw [read] at hn
  rw [read'] at hn'
  cases hn
  cases hn'
  norm_num [Numeral.value, Decimal.value] at value

end Marshaller

end DocumentTable
