import DocumentTable.Proofs.CodecText

/-!
# Documents of a value

A value has one document that it is written as, but the objects of its records may also have their
fields in another order and other members among them, and the entries of its dictionaries may stand
in any order. The text of each of these documents is read as the value.

## Main definitions

* `Codec.Spells`: a value may be written as a document
* `Codec.InOrder`: all dictionaries in a value are in order
* `Codec.Spelled`: every value in order may be written as the document that the codec gives it

## Main results

* `Codec.Spells.parse_compact`: the text of a document is read as the value that may be written so
* `Codec.spells_record`: the members that a record is written with may stand in any order and among
  others
* `Codec.Spelled.record`: the values of records may be written as their objects, when each field may
  and what is left out is what the absence of the field stands for

## Design notes

Whether a document spells a value says nothing about how it was made. A member of a record that
belongs to no field may hold anything, and a field that is missing must have the value that its
absence stands for.
-/

namespace DocumentTable

open Json (ReadsText)

namespace Codec

/-- Whether a value may be written as a document. The rules go by how the codec is made; a record
takes its fields in any order and among other members, whose keys belong to no field. -/
inductive Spells : {α : Type} → Codec α → α → Json → Prop
  | text (s : String) : Spells .text s (.string s)
  | flag (b : Bool) : Spells .flag b (.bool b)
  | int64 (n : Int64) : Spells .int64 n (Json.ofInt n.toInt)
  | uint32 (n : UInt32) : Spells .uint32 n (Json.ofInt n.toNat)
  | choice {α : Type} {names : List (String × α)} {nameOf : α → String} {value : α} :
      lookupName names (nameOf value) = .ok value →
      Spells (.choice names nameOf) value (.string (nameOf value))
  | tagged {depth : Nat} {j : Json} {a : Attribute} :
      Json.Unambiguous depth j → j.inOrder = a.encode → Spells Attribute.codec a j
  | unset {α : Type} {c : Codec α} : Spells c.nullable none .null
  | set {α : Type} {c : Codec α} {value : α} {j : Json} :
      Spells c value j → j ≠ .null → Spells c.nullable (some value) j
  | list {α : Type} {c : Codec α} {items : List (α × Json)} :
      (∀ item ∈ items, Spells c item.1 item.2) →
      Spells c.list (items.map Prod.fst) (.array (items.map Prod.snd))
  | dict {α : Type} {c : Codec α} {entries : List (String × α × Json)} :
      (∀ entry ∈ entries, Spells c entry.2.1 entry.2.2) →
      Spells c.dict (Dict.ofList (entries.map fun entry => (entry.1, entry.2.1)))
        (.object (entries.map fun entry => (entry.1, entry.2.2)))
  | record {σ τ ρ : Type} {name : String} {fields : Fields τ ρ} {toTuple : σ → τ}
      {ofTuple : τ → σ} {values : τ} {members : Document} :
      fields.keys.Nodup → (fields.met members).Nodup →
      (∀ key ∈ Dict.keys members, key ∉ fields.aliases) →
      (∀ ⦃α : Type⦄ ⦃field : Field α⦄ ⦃value : α⦄, fields.Has field value values →
        ∀ j, (field.key, j) ∈ members → Spells field.codec value j) →
      (∀ ⦃α : Type⦄ ⦃field : Field α⦄ ⦃value : α⦄, fields.Has field value values →
        field.key ∉ Dict.keys members → field.ifMissing = some value) →
      Spells (.record name fields toTuple ofTuple) (ofTuple values) (.object members)

/-! ### Reading -/

/-- A value is read from what it may be written as, where as many containers may be opened as the
document has inside one another. The proof is by induction on how the document was made, with one
lemma about each kind of codec. -/
theorem Spells.readsText {α : Type} {c : Codec α} {value : α} {j : Json} (h : Spells c value j)
    {depth : Nat} (nested : j.nesting ≤ depth) : ReadsText (c.read depth) j value := by
  induction h generalizing depth with
  | text s => exact readsText_text depth s
  | flag b => exact readsText_flag depth b
  | int64 n => exact readsText_int64 depth n
  | uint32 n => exact readsText_uint32 depth n
  | choice named => exact readsText_choice named depth
  | tagged unambiguous inOrder =>
      exact readsText_attribute (unambiguous.of_nesting nested) inOrder
  | unset => exact readsText_nullable_none _ depth
  | set _ notNull ih => exact readsText_nullable_some notNull (ih nested)
  | @list α c items _ ih =>
      rw [Json.nesting] at nested
      obtain ⟨d, rfl⟩ := Nat.exists_eq_add_of_le' (Nat.le_of_add_left_le nested)
      refine readsText_list fun item mem => ih item mem ?_
      exact Json.nestingOfItems_le.1 (Nat.le_of_add_le_add_right nested) _
        (List.mem_map_of_mem mem)
  | @dict α c entries _ ih =>
      rw [Json.nesting] at nested
      obtain ⟨d, rfl⟩ := Nat.exists_eq_add_of_le' (Nat.le_of_add_left_le nested)
      refine readsText_dict fun entry mem => ih entry mem ?_
      exact Json.nestingOfMembers_le.1 (Nat.le_of_add_le_add_right nested) _
        (List.mem_map_of_mem mem)
  | record keys distinct noAlias _ missing ih =>
      rw [Json.nesting] at nested
      obtain ⟨d, rfl⟩ := Nat.exists_eq_add_of_le' (Nat.le_of_add_left_le nested)
      refine readsText_record keys distinct noAlias (fun _ _ _ has j mem => ih has j mem ?_) missing
      exact Json.nestingOfMembers_le.1 (Nat.le_of_add_le_add_right nested) _ mem

/-- The text of a document is read as the value that may be written so. Readers open at most 127
containers inside one another, which is why the nesting is limited. -/
theorem Spells.parse_compact {α : Type} {c : Codec α} {value : α} {j : Json} (h : Spells c value j)
    (nested : j.nesting < 128) : c.parse j.compact = .ok value := by
  have read := h.readsText (Nat.le_of_lt_succ nested) .nil
  rw [List.append_nil] at read
  exact Reader.run_eq_ok.2 ⟨[], read, rfl⟩

end Codec

/-! ### Values in order -/

namespace Json

/-- An array is in order when all of its items are; their own order is data. -/
theorem inOrder_array {items : List Json} :
    (array items).inOrder = array items ↔ ∀ item ∈ items, item.inOrder = item := by
  rw [inOrder, inOrderItems_eq_map, array.injEq, ← List.map_inj_left, List.map_id']

/-- An object is in order when its names are sorted and what they hold is in order. -/
theorem inOrder_object {members : Document} :
    (object members).inOrder = object members ↔
      members.Sorted ∧ ∀ member ∈ members, member.2.inOrder = member.2 := by
  have each : Dict.mapValues inOrder members = members ↔
      ∀ member ∈ members, member.2.inOrder = member.2 := by
    conv_lhs => rhs; rw [← List.map_id members]
    exact List.map_inj_left.trans (forall₂_congr fun _ _ => by simp [Prod.ext_iff])
  rw [inOrder, inOrderMembers_eq_mapValues, object.injEq, ← each]
  constructor
  · intro h
    have sorted : members.Sorted := h ▸ Dict.sorted_ofList _
    have order : (Dict.mapValues inOrder members).Sorted := Dict.sorted_mapValues.2 sorted
    exact ⟨sorted, (order.ofList_eq (.refl _)).symm.trans h⟩
  · rintro ⟨sorted, same⟩
    rw [same, sorted.ofList_eq (.refl _)]

end Json

namespace Attribute

mutual

/-- The maps in an attribute are in order when the objects in its document are. The converse needs
no lemma of its own, as documents of attributes are made in order. -/
theorem sorted_of_inOrder {a : Attribute} (h : (encode a).inOrder = encode a) : a.Sorted := by
  cases a with
  | list items =>
      have payload := (Json.inOrder_object.1 h).2 _ List.mem_cons_self
      exact sortedItems_of_inOrder (Json.inOrder_array.1 payload)
  | map entries =>
      have payload := (Json.inOrder_object.1 h).2 _ List.mem_cons_self
      have object := Json.inOrder_object.1 payload
      rw [encodeEntries_eq_mapValues] at object
      refine ⟨Dict.sorted_mapValues.1 object.1, sortedEntries_of_inOrder ?_⟩
      rw [encodeEntries_eq_mapValues]
      exact object.2
  | _ => trivial

/-- The maps in a list of attributes are in order when the objects in their documents are. -/
theorem sortedItems_of_inOrder {items : List Attribute}
    (h : ∀ item ∈ encodeItems items, item.inOrder = item) : SortedItems items := by
  cases items with
  | nil => trivial
  | cons a rest =>
      rw [encodeItems, List.forall_mem_cons] at h
      exact ⟨sorted_of_inOrder h.1, sortedItems_of_inOrder h.2⟩

/-- The maps in the attributes of a map are in order when the objects in their documents are. -/
theorem sortedEntries_of_inOrder {entries : List (String × Attribute)}
    (h : ∀ member ∈ encodeEntries entries, member.2.inOrder = member.2) :
    SortedEntries entries := by
  cases entries with
  | nil => trivial
  | cons entry rest =>
      obtain ⟨key, a⟩ := entry
      rw [encodeEntries, List.forall_mem_cons] at h
      exact ⟨sorted_of_inOrder h.1, sortedEntries_of_inOrder h.2⟩

end

end Attribute

namespace Codec

/-- Whether the dictionaries that a value is written with are in order: the objects in its document
are. -/
def InOrder {α : Type} (c : Codec α) (value : α) : Prop :=
  (c.encode value).inOrder = c.encode value

/-- An attribute is in order exactly when its maps are: what its tags are does not matter. -/
theorem inOrder_attribute {a : Attribute} : Attribute.codec.InOrder a ↔ a.Sorted :=
  ⟨Attribute.sorted_of_inOrder, fun sorted => (sorted.bounded (Nat.le_refl _)).inOrder_eq⟩

/-- A list is in order when its values are. -/
theorem inOrder_list {α : Type} {c : Codec α} {values : List α} :
    c.list.InOrder values ↔ ∀ value ∈ values, c.InOrder value :=
  Json.inOrder_array.trans List.forall_mem_map

/-- A dictionary is in order when its keys are sorted and its values are in order. -/
theorem inOrder_dict {α : Type} {c : Codec α} {d : Dict α} :
    c.dict.InOrder d ↔ d.Sorted ∧ ∀ entry ∈ d, c.InOrder entry.2 :=
  Json.inOrder_object.trans (and_congr Dict.sorted_mapValues List.forall_mem_map)

/-- A record is in order when what its fields hold is. Its fields stand in the order of the record,
whatever their names are. -/
theorem inOrder_record {σ τ ρ : Type} {name : String} {fields : Fields τ ρ} {toTuple : σ → τ}
    {ofTuple : τ → σ} {value : σ} (keys : fields.keys.Nodup) :
    (record name fields toTuple ofTuple).InOrder value ↔
      ∀ member ∈ fields.encode (toTuple value), member.2.inOrder = member.2 := by
  have nodup := (fields.encode_keys_sublist (toTuple value)).nodup keys
  refine Json.inOrder_object.trans ((and_iff_right (Dict.sorted_ofList _)).trans ?_)
  exact forall_congr' fun member => imp_congr_left (Dict.ofList_perm nodup).mem_iff

end Codec

/-! ### The document of a value -/

/-- Every value in order may be written as the document that the codec gives it, and never is as
null. -/
structure Codec.Spelled {α : Type} (c : Codec α) : Prop where
  spells : ∀ value, c.InOrder value → c.Spells value (c.encode value)
  ne_null : ∀ value, c.encode value ≠ .null

/-- Every value in order of a field may be written as the field's document, and a value that is left
out is the one that the absence of the field stands for. -/
structure Field.Spelled {α : Type} (field : Field α) : Prop where
  spells : ∀ value, field.codec.InOrder value →
    field.codec.Spells value (field.codec.encode value)
  missing : ∀ value, field.omits value = true → field.ifMissing = some value

/-- The same for all fields of a record. -/
def Fields.Spelled : {τ ρ : Type} → Fields τ ρ → Prop
  | _, _, .nil => True
  | _, _, .cons field rest => field.Spelled ∧ rest.Spelled

namespace Codec.Spelled

variable {α : Type} {c : Codec α}

theorem text : Codec.text.Spelled :=
  ⟨fun s _ => .text s, nofun⟩

theorem flag : Codec.flag.Spelled :=
  ⟨fun b _ => .flag b, nofun⟩

/-- A number is not null, so that a number that may be absent is known from its absence. -/
theorem ofInt_ne_null {n : Int} (inRange : Json.IntegerInRange n) : Json.ofInt n ≠ .null := by
  rw [Json.ofInt, Json.Number.ofInt?, dif_pos inRange]
  intro same
  cases same

/-- Integers of 64 bits have one spelling, within the range of the numbers that are read exactly. -/
theorem int64 : Codec.int64.Spelled := by
  refine ⟨fun n _ => .int64 n, fun n => ofInt_ne_null ?_⟩
  have low := n.le_toInt
  have high := n.toInt_lt
  exact ⟨low, by omega⟩

/-- Counts have one spelling, within the range of the numbers that are read exactly. -/
theorem uint32 : Codec.uint32.Spelled := by
  have document (n : UInt32) : Codec.uint32.encode n = Json.ofInt n.toNat := by
    rw [Codec.uint32]
  refine ⟨fun n _ => ?_, fun n => ?_⟩
  · rw [document]
    exact .uint32 n
  · rw [document]
    have high := n.toNat_lt
    exact ofInt_ne_null ⟨by omega, by omega⟩

/-- An alternative is spelled by its name. It must be found under its own name, or another one would
be read. -/
theorem choice {names : List (String × α)} {nameOf : α → String}
    (named : ∀ value, lookupName names (nameOf value) = .ok value) :
    (Codec.choice names nameOf).Spelled :=
  ⟨fun value _ => .choice (named value), nofun⟩

/-- Attributes are spelled by their documents, in which the maps may have their names in any order.
-/
theorem tagged : Attribute.codec.Spelled := by
  refine ⟨fun a inOrder => ?_, fun a => ?_⟩
  · have bounded := (inOrder_attribute.1 inOrder).bounded (Nat.le_refl _)
    exact .tagged bounded.unambiguous inOrder
  · obtain ⟨tag, payload, same⟩ := a.exists_encode_eq
    show a.encode ≠ .null
    rw [same]
    nofun

/-- Lists are spelled value by value. -/
theorem list (h : c.Spelled) : c.list.Spelled := by
  refine ⟨fun values inOrder => ?_, nofun⟩
  have each := inOrder_list.1 inOrder
  have spells : Spells c.list ((values.map fun value => (value, c.encode value)).map Prod.fst)
      (.array ((values.map fun value => (value, c.encode value)).map Prod.snd)) := by
    refine .list ?_
    rw [List.forall_mem_map]
    exact fun value mem => h.spells value (each value mem)
  rw [List.map_map, List.map_map] at spells
  rwa [Function.comp_def, List.map_id'] at spells

/-- Dictionaries are spelled value by value, under the same keys. -/
theorem dict (h : c.Spelled) : c.dict.Spelled := by
  refine ⟨fun d inOrder => ?_, nofun⟩
  obtain ⟨sorted, each⟩ := inOrder_dict.1 inOrder
  have spells : Spells c.dict
      (Dict.ofList ((d.map fun entry => (entry.1, entry.2, c.encode entry.2)).map
        fun entry => (entry.1, entry.2.1)))
      (.object ((d.map fun entry => (entry.1, entry.2, c.encode entry.2)).map
        fun entry => (entry.1, entry.2.2))) := by
    refine .dict ?_
    rw [List.forall_mem_map]
    exact fun entry mem => h.spells entry.2 (each entry mem)
  rw [List.map_map, List.map_map] at spells
  rwa [Function.comp_def, List.map_id', sorted.ofList_eq (.refl _)] at spells

end Codec.Spelled

namespace Field.Spelled

variable {α : Type} {c : Codec α} {key : String}

/-- A field that has to be there is spelled as its value. -/
theorem required (h : c.Spelled) : (Field.required key c).Spelled :=
  ⟨h.spells, nofun⟩

/-- A field that is left out for none stands for none, and null is not what any value is spelled as.
-/
theorem optional (h : c.Spelled) : (Field.optional key c).Spelled where
  spells value inOrder := by
    cases value with
    | none => exact .unset
    | some value => exact .set (h.spells value inOrder) (h.ne_null value)
  missing value omitted := by
    cases value with
    | none => rfl
    | some value => cases omitted

/-- An optional field that arrays may end before is spelled as an optional field: records are
written as objects. -/
theorem optionalTail (h : c.Spelled) : (Field.optionalTail key c).Spelled := by
  have field : (Field.optional key c).Spelled := optional h
  exact ⟨field.spells, field.missing⟩

/-- A field that is left out when its list is empty stands for the empty list. -/
theorem listOrNothing (h : c.Spelled) : (Field.listOrNothing key c).Spelled where
  spells := h.list.spells
  missing values omitted := by
    rw [List.isEmpty_iff.1 omitted]
    rfl

/-- A field that is left out when its dictionary is empty stands for the empty dictionary. -/
theorem dictOrNothing (h : c.Spelled) : (Field.dictOrNothing key c).Spelled where
  spells := h.dict.spells
  missing d omitted := by
    rw [List.isEmpty_iff.1 omitted]
    rfl

/-- A field that has a default is never left out, so that any default will do. -/
theorem withDefault (h : c.Spelled) (value : α) : (Field.withDefault key c value).Spelled :=
  ⟨h.spells, nofun⟩

end Field.Spelled

/-- Each field of a record that is spelled is spelled. -/
theorem Fields.Has.spelled {α τ ρ : Type} {fields : Fields τ ρ} {values : τ} {field : Field α}
    {value : α} (has : fields.Has field value values) (h : fields.Spelled) : field.Spelled := by
  induction has with
  | head => exact h.1
  | tail _ ih => exact ih h.2

namespace Codec

variable {σ τ ρ : Type} {name : String} {fields : Fields τ ρ} {toTuple : σ → τ} {ofTuple : τ → σ}

/-- The members that a record is written with may also stand in any order and among others. The
other members must not have the name of a field, nor may any member have a second name that a field
is also read under. -/
theorem spells_record (spelled : fields.Spelled) (keys : fields.keys.Nodup)
    (inverse : ∀ value, ofTuple (toTuple value) = value) {value : σ}
    (inOrder : (record name fields toTuple ofTuple).InOrder value) (others : Document)
    {members : Document} (perm : members.Perm (fields.encode (toTuple value) ++ others))
    (unknown : ∀ key ∈ Dict.keys others, key ∉ fields.keys)
    (noAlias : ∀ key ∈ Dict.keys members, key ∉ fields.aliases) :
    Spells (record name fields toTuple ofTuple) value (.object members) := by
  have distinct : (fields.met members).Nodup := by
    have unmet : fields.met others = [] :=
      List.filter_eq_nil_iff.2 fun key mem known => unknown key mem (of_decide_eq_true known)
    have split : (fields.met members).Perm (fields.met (fields.encode (toTuple value) ++ others)) :=
      (perm.map Prod.fst).filter _
    rw [Fields.met_append, unmet, List.append_nil] at split
    exact split.nodup_iff.2 (((fields.encode_keys_sublist _).nodup keys).filter _)
  rw [inOrder_record keys] at inOrder
  rw [← inverse value]
  refine .record keys distinct noAlias (fun α field content has j mem => ?_)
    fun α field content has absent => ?_
  · rcases List.mem_append.1 (perm.mem_iff.1 mem) with mem | mem
    · have same := has.eq_of_mem_encode keys mem
      have order := inOrder _ mem
      rw [same] at order ⊢
      exact (has.spelled spelled).spells content order
    · exact absurd has.key_mem (unknown _ (List.mem_map_of_mem mem))
  · refine (has.spelled spelled).missing content (has.omits_of_not_mem fun mem => absent ?_)
    obtain ⟨member, mem, same⟩ := List.mem_map.1 mem
    rw [← same]
    exact List.mem_map_of_mem (perm.mem_iff.2 (List.mem_append_left _ mem))

/-- The values of a record may be written as its objects. Fields with second names are excluded,
since a record that has both names of a field is refused. -/
theorem Spelled.record (spelled : fields.Spelled) (keys : fields.keys.Nodup)
    (noAlias : fields.aliases = []) (inverse : ∀ value, ofTuple (toTuple value) = value) :
    (Codec.record name fields toTuple ofTuple).Spelled := by
  refine ⟨fun value inOrder => spells_record spelled keys inverse inOrder [] ?_ nofun ?_, nofun⟩
  · rw [List.append_nil]
    exact Dict.ofList_perm ((fields.encode_keys_sublist _).nodup keys)
  · rw [noAlias]
    exact fun _ _ => List.not_mem_nil

end Codec

end DocumentTable
