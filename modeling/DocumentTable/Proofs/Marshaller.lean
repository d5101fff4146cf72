import DocumentTable.Marshaller
import DocumentTable.Proofs.Dict
import DocumentTable.Proofs.Shortest

/-!
# Documents survive the marshaller

Every value becomes an attribute, and the value of that attribute is the value. What carries it is
that the text of a number stands for the number. The number keeps its kind, since the text of a
binary64 number is never that of an integer.

## Main results

* `Json.Number.ofText?_text`: the text of a number stands for the number
* `Marshaller.decodeJson_encodeJson`: the value of the attribute of a value is the value
* `Marshaller.json_survives`: values and documents survive the default marshaller
-/

namespace DocumentTable

/-! ### Numbers -/

namespace Json.Number

theorem ofInt?_value {n : Int} (h : IntegerInRange n) : ofInt? n = some (integer n h) :=
  dif_pos h

/-- The text of a number stands for the number, and so keeps its kind. Integers have no point in
their texts and floats always have one. -/
theorem ofText?_text (n : Number) : ofText? n.text = some n := by
  cases n with
  | integer n inRange =>
      show ofText? (toString n) = _
      rw [ofText?, readInteger_toString, Option.bind_some, ofInt?_value inRange]
  | float x =>
      have noInteger : readInteger (x.text .document).toList = none := by
        rw [Binary64.text, String.toList_ofList]
        exact DecimalLayout.readInteger_set rfl _ _
      show ofText? (x.text .document) = _
      rw [ofText?, noInteger, Option.bind_none, Binary64.Reading.ofText?_text]

/-- The largest integer, the number above it, which is too large for one, and a negative zero. -/
example : ["18446744073709551615", "18446744073709551616", "-0.0"].map
    (fun text => (ofText? text).map isFloat) = [some false, some true, some true] := by
  decide +kernel

end Json.Number

namespace Marshaller

/-! ### Values -/

mutual

/-- The value of the attribute of a value is the value, by induction on the value. -/
theorem decodeJson_encodeJson : (v : Json) → decodeJson (encodeJson v) = .ok v
  | .null => rfl
  | .bool _ => rfl
  | .number n => by
      rw [encodeJson, decodeJson, decodeNumber, Json.Number.ofText?_text]
  | .string _ => rfl
  | .array items => by
      rw [encodeJson, decodeJson, decodeItems_encodeItems items]
      rfl
  | .object members => by
      rw [encodeJson, decodeJson, decodeEntries_encodeMembers members]
      rfl

theorem decodeItems_encodeItems : (items : List Json) →
    decodeItems (encodeItems items) = .ok items
  | [] => rfl
  | value :: rest => by
      rw [encodeItems, decodeItems, decodeJson_encodeJson value, decodeItems_encodeItems rest]
      rfl

theorem decodeEntries_encodeMembers : (members : List (String × Json)) →
    decodeEntries (encodeMembers members) = .ok members
  | [] => rfl
  | (key, value) :: rest => by
      rw [encodeMembers, decodeEntries, decodeJson_encodeJson value,
        decodeEntries_encodeMembers rest]
      rfl

end

/-! ### Documents -/

/-- Documents survive a marshaller that values survive, member by member and under the same names.
-/
theorem decodeItem_encodeItem {m : Marshaller}
    (h : ∀ v : Json, ∃ a, m.encode v = .ok a ∧ m.decode a = .ok v) (document : Document) :
    ∃ item, m.encodeItem document = .ok item ∧ m.decodeItem item = .ok document :=
  Dict.exists_mapValuesM h document

/-- Every value survives the default marshaller, and so does every document: it becomes attributes,
and these become it again. A number travels as its text, which stands for that number and for no
other, so that `1` and `1.0` stay different. Every value that a program can hold is meant, as
numbers are those of documents: integers of 64 bits and finite floats. -/
theorem json_survives :
    (∀ v : Json, ∃ a, json.encode v = .ok a ∧ json.decode a = .ok v) ∧
      (∀ document : Document, ∃ item,
        json.encodeItem document = .ok item ∧ json.decodeItem item = .ok document) ∧
      ∀ n : Json.Number, json.encode (.number n) = .ok (.number n.text) ∧
        ∀ n', json.decode (.number n.text) = .ok (.number n') ↔ n' = n := by
  have values (v : Json) : ∃ a, json.encode v = .ok a ∧ json.decode a = .ok v :=
    ⟨encodeJson v, rfl, decodeJson_encodeJson v⟩
  refine ⟨values, decodeItem_encodeItem values, fun n => ⟨rfl, fun n' => ?_⟩⟩
  have number : json.decode (.number n.text) = .ok (.number n) := decodeJson_encodeJson (.number n)
  rw [number]
  constructor
  · intro same
    cases same
    rfl
  · rintro rfl
    rfl

end Marshaller

end DocumentTable
