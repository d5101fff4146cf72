import DocumentTable.Proofs.Marshaller

/-!
# The normal form of attributes

The default marshaller reads some attributes as the same value. Written again they have one form:
sets are lists, binary data is text, and a number is the canonical text of the number it stands for.

## Main definitions

* `Json.Number.signed?`, `Json.Number.unsigned?`, `Json.Number.float?`: a text as a number of one
  kind
* `Json.Number.inTurn?`: a text as a number of the first kind that it is a text of
* `Attribute.numerals`: the texts of all numbers in an attribute
* `Attribute.canonical`: the normal form of an attribute
* `Marshaller.Normalizes`: numerals are at fault, or what is read is written in normal form

## Main results

* `Json.Number.ofText?_eq_inTurn?`: a text is tried as one kind of number after the other
* `Marshaller.decodeJson_normalizes`: what is read of an attribute is written in normal form
* `Marshaller.json_normal_form`: an attribute fails for one of its numerals, or it has the value of
  its normal form
-/

namespace DocumentTable

/-! ### Texts of numbers -/

namespace Json.Number

/-- The signed integer of 64 bits that a text is read as. -/
def signed? (text : String) : Option Number :=
  match readInteger text.toList with
  | some n =>
    if -0x8000000000000000 ≤ n ∧ n < 0x8000000000000000 then ofInt? n else none
  | none => none

/-- The unsigned integer of 64 bits that a text is read as. -/
def unsigned? (text : String) : Option Number :=
  match readUnsigned text.toList with
  | some n => if n < 0x10000000000000000 then ofInt? n else none
  | none => none

/-- The finite binary64 number that a text is read as. -/
def float? (text : String) : Option Number :=
  match Binary64.Reading.ofText? text with
  | some (.finite x) => some (.float x)
  | _ => none

/-- The number that a text is read as: a signed integer, else an unsigned one, else a finite
binary64 number. -/
def inTurn? (text : String) : Option Number :=
  ((signed? text).or (unsigned? text)).or (float? text)

theorem ofInt?_eq_none {n : Int} (h : ¬IntegerInRange n) : ofInt? n = none :=
  dif_neg h

/-- Digits that may follow a plus sign are an integer as well, so that the two readings of a text do
not contradict each other. -/
theorem readInteger_of_readUnsigned {text : List Char} {n : Nat}
    (read : readUnsigned text = some n) : readInteger text = some (n : Int) := by
  unfold readInteger
  split
  · -- a minus sign is no digit
    next digits =>
      have noDigits : readUnsigned ('-' :: digits) = none := rfl
      rw [noDigits] at read
      cases read
  · rw [read]
    rfl

/-- An integer above zero has no minus sign, and is read without a sign too. -/
theorem readUnsigned_of_readInteger {text : List Char} {n : Int} (read : readInteger text = some n)
    (positive : 0 < n) : readUnsigned text = some n.toNat := by
  unfold readInteger at read
  split at read
  · next digits =>
      cases value : readDigits digits with
      | none =>
          rw [value] at read
          cases read
      | some k =>
          rw [value] at read
          cases read
          have negative : -(k : Int) ≤ 0 := by omega
          exact absurd positive negative.not_gt
  · obtain ⟨k, unsigned, rfl⟩ := Option.map_eq_some_iff.1 read
    exact unsigned

/-- The integers of a document are the signed and the unsigned ones. Together they are those in one
range, which is how a document keeps them. -/
theorem or_unsigned?_eq (text : String) :
    (signed? text).or (unsigned? text) = (readInteger text.toList).bind ofInt? := by
  cases read : readInteger text.toList with
  | none =>
      have unsigned : readUnsigned text.toList = none := by
        rw [Option.eq_none_iff_forall_ne_some]
        intro n unsigned
        rw [readInteger_of_readUnsigned unsigned] at read
        cases read
      rw [signed?, unsigned?, read, unsigned]
      rfl
  | some n =>
      rw [signed?, unsigned?, read, Option.bind_some]
      by_cases small : -0x8000000000000000 ≤ n ∧ n < 0x8000000000000000
      · simp only [if_pos small, ofInt?_value ⟨small.1, by omega⟩, Option.some_or]
      · simp only [if_neg small, Option.none_or]
        cases unsigned : readUnsigned text.toList with
        | none =>
            -- an integer below the signed ones is in no range
            have negative : n ≤ 0 := by
              by_contra positive
              rw [readUnsigned_of_readInteger read (by omega)] at unsigned
              cases unsigned
            exact (ofInt?_eq_none fun inRange => small ⟨inRange.1, by omega⟩).symm
        | some k =>
            have same : (k : Int) = n :=
              Option.some.inj ((readInteger_of_readUnsigned unsigned).symm.trans read)
            subst same
            by_cases inRange : k < 0x10000000000000000
            · simp only [if_pos inRange]
            · simp only [if_neg inRange]
              exact (ofInt?_eq_none fun ⟨_, high⟩ => inRange (by omega)).symm

/-- A text is tried as one kind of number after the other, first as an integer and then as a float.
-/
theorem ofText?_eq_inTurn? (text : String) : ofText? text = inTurn? text := by
  rw [inTurn?, or_unsigned?_eq, ofText?]
  cases (readInteger text.toList).bind ofInt? with
  | some n => rfl
  | none => rfl

/-- The canonical text of a number; a text that is none stays as it is. -/
def canonicalText (text : String) : String :=
  (inTurn? text).elim text Number.text

end Json.Number

namespace Attribute

mutual

/-- The texts of all numbers in an attribute, at any depth. -/
def numerals : Attribute → List String
  | .number text => [text]
  | .numberSet texts => texts
  | .list items => numeralsOfItems items
  | .map entries => numeralsOfEntries entries
  | _ => []

/-- The texts of all numbers in attributes. -/
def numeralsOfItems : List Attribute → List String
  | [] => []
  | a :: rest => numerals a ++ numeralsOfItems rest

/-- The texts of all numbers in entries. -/
def numeralsOfEntries : List (String × Attribute) → List String
  | [] => []
  | (_, a) :: rest => numerals a ++ numeralsOfEntries rest

end

mutual

/-- The normal form of an attribute. -/
def canonical : Attribute → Attribute
  | .string s => .string s
  | .number text => .number (Json.Number.canonicalText text)
  | .binary bytes => .string (Base64.encode .standard bytes)
  | .stringSet values => .list (values.map .string)
  | .numberSet texts => .list (texts.map fun text => .number (Json.Number.canonicalText text))
  | .binarySet values => .list (values.map fun bytes => .string (Base64.encode .standard bytes))
  | .bool b => .bool b
  | .null _ => .null true
  | .list items => .list (canonicalItems items)
  | .map entries => .map (canonicalEntries entries)

/-- The normal forms of attributes. -/
def canonicalItems : List Attribute → List Attribute
  | [] => []
  | a :: rest => canonical a :: canonicalItems rest

/-- The normal forms of the attributes of entries. -/
def canonicalEntries : List (String × Attribute) → List (String × Attribute)
  | [] => []
  | (key, a) :: rest => (key, canonical a) :: canonicalEntries rest

end

end Attribute

/-! ### Reading and writing again -/

namespace Marshaller

/-- Reading fails for one of some numerals, or all of them are texts of numbers and what is read is
written in a normal form. -/
def Normalizes {α β : Type} (numerals : List String) (read : Except MarshalError α) (write : α → β)
    (form : β) : Prop :=
  (∃ text ∈ numerals, Json.Number.inTurn? text = none ∧ read = .error (.invalidNumber text)) ∨
    (∀ text ∈ numerals, (Json.Number.inTurn? text).isSome) ∧
      ∃ value, read = .ok value ∧ write value = form

namespace Normalizes

variable {α β γ δ : Type} {numerals numerals' : List String} {read : Except MarshalError α}
  {read' : Except MarshalError γ} {write : α → β} {write' : γ → δ} {form : β} {form' : δ}

/-- What is read without numerals cannot fail. -/
theorem ok {value : α} (written : write value = form) :
    Normalizes [] (.ok value) write form :=
  .inr ⟨List.forall_mem_nil _, value, rfl, written⟩

/-- A value that is put into another one after it was read, as a number is into a value. -/
theorem map (normalizes : Normalizes numerals read write form) {f : α → γ} {g : β → δ}
    (written : ∀ value, write' (f value) = g (write value)) :
    Normalizes numerals (read.map f) write' (g form) := by
  rcases normalizes with ⟨text, mem, noNumber, rfl⟩ | ⟨numbers, value, rfl, rfl⟩
  · exact .inl ⟨text, mem, noNumber, rfl⟩
  · exact .inr ⟨numbers, f value, rfl, written value⟩

/-- Two values that are read one after the other. The first numeral that is no number decides, in
the order of both. -/
theorem bind₂ {ε ζ : Type} (normalizes : Normalizes numerals read write form)
    (normalizes' : Normalizes numerals' read' write' form') {f : α → γ → ε} {g : β → δ → ζ}
    {write'' : ε → ζ} (written : ∀ a c, write'' (f a c) = g (write a) (write' c)) :
    Normalizes (numerals ++ numerals') (do return f (← read) (← read')) write'' (g form form') := by
  rcases normalizes with ⟨text, mem, noNumber, rfl⟩ | ⟨numbers, a, rfl, rfl⟩
  · exact .inl ⟨text, List.mem_append_left _ mem, noNumber, rfl⟩
  · rcases normalizes' with ⟨text, mem, noNumber, rfl⟩ | ⟨numbers', c, rfl, rfl⟩
    · exact .inl ⟨text, List.mem_append_right _ mem, noNumber, rfl⟩
    · exact .inr ⟨List.forall_mem_append.2 ⟨numbers, numbers'⟩, f a c, rfl, written a c⟩

end Normalizes

/-- A numeral is refused, or its number is written in normal form. -/
theorem decodeNumber_normalizes (text : String) :
    Normalizes [text] (decodeNumber text) encodeJson
      (.number (Json.Number.canonicalText text)) := by
  unfold decodeNumber Json.Number.canonicalText
  rw [Json.Number.ofText?_eq_inTurn?]
  cases number : Json.Number.inTurn? text with
  | none => exact .inl ⟨text, List.mem_singleton_self text, number, rfl⟩
  | some n =>
      refine .inr ⟨?_, .number n, rfl, rfl⟩
      rw [List.forall_mem_singleton, number]
      rfl

theorem decodeNumbers_normalizes (texts : List String) :
    Normalizes texts (decodeNumbers texts) encodeItems
      (texts.map fun text => .number (Json.Number.canonicalText text)) := by
  induction texts with
  | nil => exact .ok rfl
  | cons text rest ih =>
      exact (decodeNumber_normalizes text).bind₂ ih fun _ _ => rfl

theorem encodeItems_map {α : Type} (f : α → Json) (values : List α) :
    encodeItems (values.map f) = values.map fun value => encodeJson (f value) := by
  induction values with
  | nil => rfl
  | cons value rest ih => rw [List.map_cons, encodeItems, ih, List.map_cons]

mutual

/-- An attribute fails for one of its numerals, or what is read of it is written in normal form. The
induction is on the attribute, together with its items and entries. -/
theorem decodeJson_normalizes (w : Attribute) :
    Normalizes w.numerals (decodeJson w) encodeJson w.canonical := by
  cases w with
  | string s => exact .ok rfl
  | number text => exact decodeNumber_normalizes text
  | binary bytes => exact .ok rfl
  | stringSet values => exact .ok (congrArg _ (encodeItems_map _ values))
  | numberSet texts => exact (decodeNumbers_normalizes texts).map fun _ => rfl
  | binarySet values => exact .ok (congrArg _ (encodeItems_map _ values))
  | bool b => exact .ok rfl
  | null b => exact .ok rfl
  | list items => exact (decodeItems_normalizes items).map fun _ => rfl
  | map entries => exact (decodeEntries_normalizes entries).map fun _ => rfl

theorem decodeItems_normalizes (items : List Attribute) :
    Normalizes (Attribute.numeralsOfItems items) (decodeItems items) encodeItems
      (Attribute.canonicalItems items) := by
  cases items with
  | nil => exact .ok rfl
  | cons a rest =>
      exact (decodeJson_normalizes a).bind₂ (decodeItems_normalizes rest) fun _ _ => rfl

theorem decodeEntries_normalizes (entries : List (String × Attribute)) :
    Normalizes (Attribute.numeralsOfEntries entries) (decodeEntries entries) encodeMembers
      (Attribute.canonicalEntries entries) := by
  cases entries with
  | nil => exact .ok rfl
  | cons entry rest =>
      obtain ⟨key, a⟩ := entry
      exact (decodeJson_normalizes a).bind₂ (decodeEntries_normalizes rest)
        (f := fun value values => (key, value) :: values)
        (g := fun value values => (key, value) :: values) fun _ _ => rfl

end

/-- An attribute is refused if and only if one of its numerals, at whatever depth, is the text of no
number, and then for such a numeral. Otherwise its value is written in normal form, and the normal
form has the same value. Nothing is asked of the attribute, so that normal forms may be taken of
what any client has stored. -/
theorem json_normal_form (w : Attribute) :
    ((∃ cause, json.decode w = .error cause) ↔
      ∃ text ∈ w.numerals, Json.Number.inTurn? text = none) ∧
    (∀ cause, json.decode w = .error cause →
      ∃ text ∈ w.numerals, Json.Number.inTurn? text = none ∧ cause = .invalidNumber text) ∧
    ((∀ text ∈ w.numerals, (Json.Number.inTurn? text).isSome) →
      ∃ value, json.decode w = .ok value ∧ json.encode value = .ok w.canonical ∧
        json.decode w.canonical = .ok value) := by
  rcases decodeJson_normalizes w with
    ⟨text, mem, noNumber, failed⟩ | ⟨numbers, value, read, written⟩
  · refine ⟨⟨fun _ => ⟨text, mem, noNumber⟩, fun _ => ⟨_, failed⟩⟩, fun cause failed' => ?_,
      fun numbers => ?_⟩
    · exact ⟨text, mem, noNumber, Except.error.inj (failed'.symm.trans failed)⟩
    · exact absurd noNumber (Option.isSome_iff_ne_none.1 (numbers text mem))
  · have ok : json.decode w = .ok value := read
    -- with a value there is no error, so that no numeral is unreadable
    have notRefused (cause : MarshalError) : json.decode w ≠ .error cause := by
      rw [ok]
      nofun
    refine ⟨⟨?_, ?_⟩, fun cause failed => absurd failed (notRefused cause),
      fun _ => ⟨value, ok, congrArg _ written, ?_⟩⟩
    · rintro ⟨cause, failed⟩
      exact absurd failed (notRefused cause)
    · rintro ⟨text, mem, noNumber⟩
      exact absurd noNumber (Option.isSome_iff_ne_none.1 (numbers text mem))
    · rw [← written]
      exact decodeJson_encodeJson value

/-- A set inside a map inside a list is refused for its second member. Numbers keep their kind: a
leading sign and leading zeros go, and an exponent makes a number a floating point one. -/
theorem json_normal_form_nested :
    let bad : Attribute := .list [.bool true, .map [("codes", .numberSet ["7", "seven"])]]
    let good : Attribute := .map
      [("codes", .list [.numberSet ["+007", "18446744073709551615"], .number "1e2", .null false]),
        ("files", .binarySet [[0x68, 0x69], []]), ("names", .stringSet ["Ann"])]
    let form : Attribute := .map
      [("codes", .list [.list [.number "7", .number "18446744073709551615"], .number "100.0",
          .null true]),
        ("files", .list [.string "aGk=", .string ""]), ("names", .list [.string "Ann"])]
    (∃ cause, json.decode bad = .error cause ∧
      ∃ text ∈ bad.numerals, Json.Number.inTurn? text = none ∧ cause = .invalidNumber text) ∧
    ∃ value, json.decode good = .ok value ∧ json.encode value = .ok form ∧
      json.decode form = .ok value := by
  intro bad good form
  constructor
  · obtain ⟨cause, failed⟩ := (json_normal_form bad).1.2 ⟨"seven", by decide, by decide +kernel⟩
    exact ⟨cause, failed, (json_normal_form bad).2.1 cause failed⟩
  · have canonical : good.canonical = form := by decide +kernel
    rw [← canonical]
    exact (json_normal_form good).2.2 (by decide +kernel)

end Marshaller

end DocumentTable
