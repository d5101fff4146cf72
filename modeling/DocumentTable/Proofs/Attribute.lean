import DocumentTable.Proofs.Base64
import DocumentTable.Wire.Attribute
import Mathlib.Data.Set.List

/-!
# Attributes and their documents

Each attribute has one document, and each document that is accepted is that of one attribute.

## Main definitions

* `Attribute.Tagged`: the documents of attributes, described by their form

## Main results

* `Attribute.decode_eq_ok`: a document is accepted as an attribute if and only if it is its document
* `Attribute.tagged_iff`: the documents that are accepted are those of that form
-/

namespace DocumentTable.Attribute

/-- The documents with one tag as their only key, whose payload has the form that belongs to it. -/
inductive Tagged : Json → Prop
  | string (s : String) : Tagged (.object [("S", .string s)])
  | number (text : String) : Tagged (.object [("N", .string text)])
  | binary {text : String} : Base64.Canonical .standard (bytesOf text) →
      Tagged (.object [("B", .string text)])
  | stringSet (texts : List String) : Tagged (.object [("SS", .array (texts.map .string))])
  | numberSet (texts : List String) : Tagged (.object [("NS", .array (texts.map .string))])
  | binarySet {texts : List String} :
      (∀ text ∈ texts, Base64.Canonical .standard (bytesOf text)) →
      Tagged (.object [("BS", .array (texts.map .string))])
  | bool (b : Bool) : Tagged (.object [("BOOL", .bool b)])
  | null (b : Bool) : Tagged (.object [("NULL", .bool b)])
  | list {items : List Json} : (∀ item ∈ items, Tagged item) →
      Tagged (.object [("L", .array items)])
  | map {members : List (String × Json)} : (∀ member ∈ members, Tagged member.2) →
      Tagged (.object [("M", .object members)])

/-! ### Payloads -/

theorem text_decode_eq_ok {j : Json} {s : String} :
    Codec.text.decode j = .ok s ↔ j = .string s := by
  cases j with
  | string t => exact ⟨fun h => congrArg Json.string (Except.ok.inj h), fun h => by cases h; rfl⟩
  | _ => exact iff_of_false nofun nofun

theorem flag_decode_eq_ok {j : Json} {b : Bool} : Codec.flag.decode j = .ok b ↔ j = .bool b := by
  cases j with
  | bool c => exact ⟨fun h => congrArg Json.bool (Except.ok.inj h), fun h => by cases h; rfl⟩
  | _ => exact iff_of_false nofun nofun

/-- Only an array of texts is accepted as texts. -/
theorem texts_decode_eq_ok {j : Json} {texts : List String} :
    Codec.text.list.decode j = .ok texts ↔ j = .array (texts.map .string) := by
  cases j with
  | array items =>
      show items.mapM Codec.text.decode = .ok texts ↔ _
      rw [except_mapM_eq_ok fun _ _ => text_decode_eq_ok, Json.array.injEq]
  | _ => exact iff_of_false nofun nofun

/-- A text is accepted as the bytes that it is the text of in base 64, and no other text is for the
same bytes. -/
theorem decodeBinary_eq_ok {text : String} {bytes : List UInt8} :
    decodeBinary text = .ok bytes ↔ text = Base64.encode .standard bytes := by
  rw [← Base64.decode_eq_ok, decodeBinary]
  cases Base64.decode .standard text with
  | error e => exact iff_of_false nofun nofun
  | ok bytes' => exact ⟨fun h => congrArg Except.ok (Except.ok.inj h), fun h => by cases h; rfl⟩

/-- Texts are accepted as a set of binaries when each of them is accepted. -/
theorem decodeBinaries_eq_ok {texts : List String} {values : List (List UInt8)} :
    texts.mapM decodeBinary = .ok values ↔ texts = values.map (Base64.encode .standard) :=
  except_mapM_eq_ok fun _ _ => decodeBinary_eq_ok

/-! ### Encoding and decoding -/

/-- An object with one key is accepted as its payload is. Nothing else is accepted as an attribute.
-/
theorem decode_tagged (tag : String) (payload : Json) :
    decode (.object [(tag, payload)]) = decodePayload tag payload := by
  rw [decode]
  cases decodePayload tag payload <;> rfl

mutual

/-- The document of an attribute is accepted as the attribute, by induction on the attribute. -/
theorem decode_encode (a : Attribute) : decode (encode a) = .ok a := by
  cases a with
  | string s => rfl
  | number text => rfl
  | binary bytes =>
      rw [encode, decode_tagged]
      show decodeBinary _ >>= _ = _
      rw [decodeBinary_eq_ok.2 rfl]
      rfl
  | stringSet texts =>
      rw [encode, decode_tagged]
      show (Codec.text.list.decode _).map _ = _
      rw [texts_decode_eq_ok.2 rfl]
      rfl
  | numberSet texts =>
      rw [encode, decode_tagged]
      show (Codec.text.list.decode _).map _ = _
      rw [texts_decode_eq_ok.2 rfl]
      rfl
  | binarySet values =>
      rw [encode, decode_tagged, ← Function.comp_def Json.string, ← List.map_map]
      show (Codec.text.list.decode _ >>= fun texts => texts.mapM decodeBinary >>= _) = _
      rw [texts_decode_eq_ok.2 rfl]
      show (List.mapM decodeBinary _ >>= _) = _
      rw [decodeBinaries_eq_ok.2 rfl]
      rfl
  | bool b => rfl
  | null b => rfl
  | list items =>
      rw [encode, decode_tagged]
      show (decodeItems _).map _ = _
      rw [decodeItems_encodeItems]
      rfl
  | map entries =>
      rw [encode, decode_tagged]
      show (decodeEntries _).map _ = _
      rw [decodeEntries_encodeEntries]
      rfl

theorem decodeItems_encodeItems (items : List Attribute) :
    decodeItems (encodeItems items) = .ok items := by
  cases items with
  | nil => rfl
  | cons a rest =>
      rw [encodeItems, decodeItems, decode_encode a, decodeItems_encodeItems rest]
      rfl

theorem decodeEntries_encodeEntries (entries : List (String × Attribute)) :
    decodeEntries (encodeEntries entries) = .ok entries := by
  cases entries with
  | nil => rfl
  | cons entry rest =>
      obtain ⟨key, a⟩ := entry
      rw [encodeEntries, decodeEntries, decode_encode a, decodeEntries_encodeEntries rest]
      rfl

end

mutual

/-- A document that is accepted is the one of the attribute that it is accepted as. There is no
second way to write an attribute. -/
theorem eq_encode_of_decode {j : Json} {a : Attribute} (h : decode j = .ok a) : j = encode a := by
  cases j with
  | object members =>
      cases members with
      | nil => cases h
      | cons member rest =>
          obtain ⟨tag, payload⟩ := member
          rw [decode] at h
          obtain ⟨value, hvalue, h⟩ := exists_of_except_bind h
          cases rest with
          | nil =>
              cases h
              exact eq_encode_of_decodePayload hvalue
          | cons => cases h
  | _ => cases h
termination_by (sizeOf a, 1)

/-- A payload that is accepted under a tag is the payload of the attribute, and the tag is its tag.
-/
theorem eq_encode_of_decodePayload {tag : String} {payload : Json} {a : Attribute}
    (h : decodePayload tag payload = .ok a) : .object [(tag, payload)] = encode a := by
  unfold decodePayload at h
  split at h
  · obtain ⟨s, hs, rfl⟩ := exists_of_except_map h
    rw [text_decode_eq_ok.1 hs, encode]
  · obtain ⟨s, hs, rfl⟩ := exists_of_except_map h
    rw [text_decode_eq_ok.1 hs, encode]
  · obtain ⟨text, htext, h⟩ := exists_of_except_bind h
    obtain ⟨bytes, hbytes, h⟩ := exists_of_except_bind h
    cases h
    rw [text_decode_eq_ok.1 htext, decodeBinary_eq_ok.1 hbytes, encode]
  · obtain ⟨texts, htexts, rfl⟩ := exists_of_except_map h
    rw [texts_decode_eq_ok.1 htexts, encode]
  · obtain ⟨texts, htexts, rfl⟩ := exists_of_except_map h
    rw [texts_decode_eq_ok.1 htexts, encode]
  · obtain ⟨texts, htexts, h⟩ := exists_of_except_bind h
    obtain ⟨values, hvalues, h⟩ := exists_of_except_bind h
    cases h
    rw [texts_decode_eq_ok.1 htexts, decodeBinaries_eq_ok.1 hvalues, encode, List.map_map]
    rfl
  · obtain ⟨b, hb, rfl⟩ := exists_of_except_map h
    rw [flag_decode_eq_ok.1 hb, encode]
  · obtain ⟨b, hb, rfl⟩ := exists_of_except_map h
    rw [flag_decode_eq_ok.1 hb, encode]
  · split at h
    · obtain ⟨values, hvalues, rfl⟩ := exists_of_except_map h
      rw [eq_encodeItems_of_decodeItems hvalues, encode]
    · cases h
  · split at h
    · obtain ⟨entries, hentries, rfl⟩ := exists_of_except_map h
      rw [eq_encodeEntries_of_decodeEntries hentries, encode]
    · cases h
  · cases h
termination_by (sizeOf a, 0)

/-- Documents that are accepted as a list are those of the list. -/
theorem eq_encodeItems_of_decodeItems {items : List Json} {values : List Attribute}
    (h : decodeItems items = .ok values) : items = encodeItems values := by
  cases items with
  | nil =>
      cases h
      rfl
  | cons item rest =>
      rw [decodeItems] at h
      obtain ⟨value, hvalue, h⟩ := exists_of_except_bind h
      obtain ⟨values, hvalues, h⟩ := exists_of_except_bind h
      cases h
      rw [encodeItems, ← eq_encode_of_decode hvalue, ← eq_encodeItems_of_decodeItems hvalues]
termination_by (sizeOf values, 0)

/-- Documents that are accepted as a map are those of the map. -/
theorem eq_encodeEntries_of_decodeEntries {members : List (String × Json)}
    {entries : List (String × Attribute)} (h : decodeEntries members = .ok entries) :
    members = encodeEntries entries := by
  cases members with
  | nil =>
      cases h
      rfl
  | cons member rest =>
      obtain ⟨key, payload⟩ := member
      rw [decodeEntries] at h
      obtain ⟨value, hvalue, h⟩ := exists_of_except_bind h
      obtain ⟨entries, hentries, h⟩ := exists_of_except_bind h
      cases h
      rw [encodeEntries, ← eq_encode_of_decode hvalue,
        ← eq_encodeEntries_of_decodeEntries hentries]
termination_by (sizeOf entries, 0)

end

/-- A document is accepted as an attribute if and only if it is the document of the attribute. Both
directions together say that documents and attributes correspond to each other. -/
theorem decode_eq_ok {j : Json} {a : Attribute} : decode j = .ok a ↔ j = encode a := by
  refine ⟨eq_encode_of_decode, ?_⟩
  rintro rfl
  exact decode_encode a

/-! ### The documents that are accepted -/

/-- The documents of a list are those of its members. -/
theorem encodeItems_eq_map (items : List Attribute) : encodeItems items = items.map encode := by
  induction items with
  | nil => rfl
  | cons a rest ih => rw [encodeItems, ih, List.map_cons]

/-- The documents of a map are those of its values, under the same names. -/
theorem encodeEntries_eq_mapValues (entries : List (String × Attribute)) :
    encodeEntries entries = Dict.mapValues encode entries := by
  induction entries with
  | nil => rfl
  | cons entry rest ih =>
      rw [encodeEntries, ih]
      rfl

mutual

/-- The document of an attribute has a tag and the payload that belongs to it. -/
theorem tagged_encode (a : Attribute) : Tagged (encode a) := by
  cases a with
  | string s => exact .string s
  | number text => exact .number text
  | binary bytes => exact .binary (Base64.canonical_iff.2 ⟨bytes, rfl⟩)
  | stringSet texts => exact .stringSet texts
  | numberSet texts => exact .numberSet texts
  | binarySet values =>
      rw [encode, ← Function.comp_def Json.string, ← List.map_map]
      refine .binarySet ?_
      rw [List.forall_mem_map]
      exact fun bytes _ => Base64.canonical_iff.2 ⟨bytes, rfl⟩
  | bool b => exact .bool b
  | null b => exact .null b
  | list items => exact .list (tagged_of_mem_encodeItems items)
  | map entries => exact .map (tagged_of_mem_encodeEntries entries)

theorem tagged_of_mem_encodeItems (items : List Attribute) :
    ∀ item ∈ encodeItems items, Tagged item := by
  cases items with
  | nil => nofun
  | cons a rest =>
      rw [encodeItems, List.forall_mem_cons]
      exact ⟨tagged_encode a, tagged_of_mem_encodeItems rest⟩

theorem tagged_of_mem_encodeEntries (entries : List (String × Attribute)) :
    ∀ member ∈ encodeEntries entries, Tagged member.2 := by
  cases entries with
  | nil => nofun
  | cons entry rest =>
      obtain ⟨key, a⟩ := entry
      rw [encodeEntries, List.forall_mem_cons]
      exact ⟨tagged_encode a, tagged_of_mem_encodeEntries rest⟩

end

/-- A document with a tag and the payload that belongs to it is that of an attribute, by induction
on the document. -/
theorem Tagged.exists_encode {j : Json} (h : Tagged j) : ∃ a, encode a = j := by
  induction h with
  | string s => exact ⟨.string s, rfl⟩
  | number text => exact ⟨.number text, rfl⟩
  | binary canonical =>
      obtain ⟨bytes, rfl⟩ := Base64.canonical_iff.1 canonical
      exact ⟨.binary bytes, rfl⟩
  | stringSet texts => exact ⟨.stringSet texts, rfl⟩
  | numberSet texts => exact ⟨.numberSet texts, rfl⟩
  | @binarySet texts canonical =>
      -- each text is the encoding of some bytes, so that the texts are the encodings of some list
      have images : texts ∈ Set.range (List.map (Base64.encode .standard)) := by
        rw [Set.range_list_map]
        intro text mem
        obtain ⟨bytes, same⟩ := Base64.canonical_iff.1 (canonical text mem)
        exact ⟨bytes, same.symm⟩
      obtain ⟨values, rfl⟩ := images
      refine ⟨.binarySet values, ?_⟩
      rw [encode, List.map_map]
      rfl
  | bool b => exact ⟨.bool b, rfl⟩
  | null b => exact ⟨.null b, rfl⟩
  | @list items _ ih =>
      have images : items ∈ Set.range (List.map encode) := by
        rw [Set.range_list_map]
        exact ih
      obtain ⟨values, rfl⟩ := images
      refine ⟨.list values, ?_⟩
      rw [encode, encodeItems_eq_map]
  | @map members _ ih =>
      have images : members ∈ Set.range
          (List.map fun entry : String × Attribute => (entry.1, encode entry.2)) := by
        rw [Set.range_list_map]
        intro member mem
        obtain ⟨a, same⟩ := ih member mem
        exact ⟨(member.1, a), congrArg (member.1, ·) same⟩
      obtain ⟨entries, rfl⟩ := images
      refine ⟨.map entries, ?_⟩
      rw [encode, encodeEntries_eq_mapValues]
      rfl

/-- The documents of attributes are those with a tag and the payload that belongs to it. What is
accepted is thus described without decoding anything. -/
theorem tagged_iff {j : Json} : Tagged j ↔ ∃ a, decode j = .ok a := by
  constructor
  · intro h
    obtain ⟨a, rfl⟩ := h.exists_encode
    exact ⟨a, decode_encode a⟩
  · rintro ⟨a, h⟩
    rw [decode_eq_ok.1 h]
    exact tagged_encode a

end DocumentTable.Attribute
