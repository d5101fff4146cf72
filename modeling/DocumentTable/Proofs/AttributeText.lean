import DocumentTable.Proofs.Attribute
import DocumentTable.Proofs.JsonText

/-!
# Attributes in texts

An attribute is read from a text as its document is.

## Main results

* `Attribute.reads_encode`: where an attribute is read, its document is read
* `Attribute.reads_of_distinct`: where the document of an attribute is read, and no object in it has
  a key twice, the attribute is read
-/

namespace DocumentTable

open Reader (Reads Carries Lifts requireToken)

/-! ### Scalars -/

/-- A text is read behind its quotation mark. -/
theorem Codec.reads_text {depth : Nat} {bytes rest : List UInt8} {s : String} :
    (Codec.text.read depth).Reads bytes s rest ↔
      ∃ mid, (requireToken .endInValue).Reads bytes 0x22 mid ∧
        Reader.readString.Reads mid s rest := by
  show (Codec.readText _).Reads bytes s rest ↔ _
  rw [Codec.readText, Reader.reads_bind]
  constructor
  · rintro ⟨b, mid, token, read⟩
    split at read
    · next quote => exact ⟨mid, quote ▸ token, read⟩
    · exact absurd read Reader.not_reads_refuse
  · rintro ⟨mid, token, read⟩
    exact ⟨_, mid, token, by rwa [if_pos rfl]⟩

/-- A text is read where its document is read. The reader of containers is not asked, and may be
any. -/
theorem Codec.reads_text_iff {depth : Nat} {inner : Option (Reader Json)} {bytes rest : List UInt8}
    {s : String} :
    (Codec.text.read depth).Reads bytes s rest ↔
      (Json.readerOver inner).Reads bytes (.string s) rest := by
  rw [Codec.reads_text, Json.reads_readerOver]
  constructor
  · rintro ⟨mid, token, read⟩
    exact .string token read
  · intro form
    cases form with
    | string token read => exact ⟨_, token, read⟩

/-- A truth value is read where its document is read, whatever the reader of containers is. -/
theorem Codec.reads_flag_iff {depth : Nat} {inner : Option (Reader Json)} {bytes rest : List UInt8}
    {b : Bool} :
    (Codec.flag.read depth).Reads bytes b rest ↔
      (Json.readerOver inner).Reads bytes (.bool b) rest := by
  show Reads (requireToken _ >>= _) bytes b rest ↔ _
  rw [Json.reads_readerOver, Reader.reads_bind]
  constructor
  · rintro ⟨_, mid, token, read⟩
    split at read
    · obtain ⟨_, _, word, done⟩ := Reader.reads_bind.1 read
      obtain ⟨rfl, rfl⟩ := Reader.reads_pure.1 done
      exact .true token word
    · obtain ⟨_, _, word, done⟩ := Reader.reads_bind.1 read
      obtain ⟨rfl, rfl⟩ := Reader.reads_pure.1 done
      exact .false token word
    · exact absurd read Reader.not_reads_refuse
  · intro form
    cases form with
    | true token word =>
        refine ⟨_, _, token, ?_⟩
        exact Reader.reads_bind.2 ⟨_, _, word, Reader.reads_pure.2 ⟨rfl, rfl⟩⟩
    | false token word =>
        refine ⟨_, _, token, ?_⟩
        exact Reader.reads_bind.2 ⟨_, _, word, Reader.reads_pure.2 ⟨rfl, rfl⟩⟩

/-- Texts are read where their documents are read. -/
theorem Codec.reads_texts {depth : Nat} {bytes rest : List UInt8} {texts : List String}
    (h : (Codec.text.list.read depth).Reads bytes texts rest) :
    (Json.reader depth).Reads bytes (.array (texts.map .string)) rest := by
  rw [Json.reader_eq, Json.reads_readerOver]
  cases depth with
  | zero =>
      obtain ⟨_, _, _, none, _⟩ := Reader.reads_array.1 h
      cases none
  | succ depth =>
      have carries : Carries Json.string (Codec.text.read depth) (Json.reader depth) := by
        intro bytes s rest read
        rw [Json.reader_eq]
        exact Codec.reads_text_iff.1 read
      exact .array (carries.array h)

/-- A text is read where its document is, also by the reader that refuses repeated keys. -/
theorem Codec.reads_text_of_distinct {depth : Nat} {bytes rest : List UInt8} {s : String}
    (h : (Json.distinctReader depth).Reads bytes (.string s) rest) (depth' : Nat) :
    (Codec.text.read depth').Reads bytes s rest := by
  rw [Json.distinctReader_eq, Json.reads_distinctReaderOver_of_ne (by simp)] at h
  exact Codec.reads_text_iff.2 h

/-- A truth value is read where its document is, also by the reader that refuses repeated keys. -/
theorem Codec.reads_flag_of_distinct {depth : Nat} {bytes rest : List UInt8} {b : Bool}
    (h : (Json.distinctReader depth).Reads bytes (.bool b) rest) (depth' : Nat) :
    (Codec.flag.read depth').Reads bytes b rest := by
  rw [Json.distinctReader_eq, Json.reads_distinctReaderOver_of_ne (by simp)] at h
  exact Codec.reads_flag_iff.2 h

/-- Texts are read where their documents are, also by the reader that refuses repeated keys. -/
theorem Codec.reads_texts_of_distinct {depth : Nat} {bytes rest : List UInt8} {texts : List String}
    (h : (Json.distinctReader depth).Reads bytes (.array (texts.map .string)) rest) :
    (Codec.text.list.read depth).Reads bytes texts rest := by
  rw [Json.distinctReader_eq, Json.reads_distinctReaderOver_of_ne (by simp),
    Json.reads_readerOver] at h
  cases h with
  | array container =>
      cases depth with
      | zero =>
          obtain ⟨_, _, _, none, _⟩ := Reader.reads_array.1 container
          cases none
      | succ depth =>
          have lifts : Lifts Json.string (Codec.text.read depth) (Json.distinctReader depth) :=
            fun _ _ _ read => Codec.reads_text_of_distinct read depth
          exact lifts.array container

namespace Attribute

/-! ### Tagged objects -/

/-- An attribute is read within its braces, where one container less may be opened. -/
theorem read_succ (depth : Nat) :
    read (depth + 1) = readOver (some (readTagged depth (Codec.inside read depth))) := by
  cases depth <;> rfl

/-- An attribute is read from a brace to the brace that closes it. -/
theorem reads_readOver {content : Option (Reader Attribute)} {bytes rest : List UInt8}
    {a : Attribute} :
    (readOver content).Reads bytes a rest ↔
      ∃ start, (requireToken .endInValue).Reads bytes 0x7B start ∧
        ∃ inner, content = some inner ∧ ∃ mid, inner.Reads (start.drop 1) a mid ∧
          Reader.endObject.Reads mid () rest := by
  rw [readOver, Reader.reads_bind]
  constructor
  · rintro ⟨b, start, token, read⟩
    split at read
    · next brace => exact ⟨start, brace ▸ token, Reader.reads_enclosed.1 read⟩
    · exact absurd read Reader.not_reads_refuse
  · rintro ⟨start, token, read⟩
    refine ⟨_, start, token, ?_⟩
    rw [if_pos rfl]
    exact Reader.reads_enclosed.2 read

/-- Within the braces there are a tag and its payload, and no further member. -/
theorem reads_readTagged {depth : Nat} {nested : Option (Reader Attribute)}
    {bytes rest : List UInt8} {a : Attribute} :
    (readTagged depth nested).Reads bytes a rest ↔
      ∃ tag mid mid', (Reader.nextKey true).Reads bytes (some tag) mid ∧
        (readPayload depth nested tag).Reads mid a mid' ∧
        (Reader.nextKey false).Reads mid' none rest := by
  rw [readTagged, Reader.reads_bind]
  constructor
  · rintro ⟨key, mid, first, read⟩
    cases key with
    | none => exact absurd read Reader.not_reads_throw
    | some tag =>
        obtain ⟨value, mid', payload, read⟩ := Reader.reads_bind.1 read
        obtain ⟨next, rest', last, read⟩ := Reader.reads_bind.1 read
        cases next with
        | none =>
            obtain ⟨rfl, rfl⟩ := Reader.reads_pure.1 read
            exact ⟨tag, mid, mid', first, payload, last⟩
        | some _ => exact absurd read Reader.not_reads_throw
  · rintro ⟨tag, mid, mid', first, payload, last⟩
    exact ⟨_, _, first, Reader.reads_bind.2 ⟨_, _, payload,
      Reader.reads_bind.2 ⟨_, _, last, Reader.reads_pure.2 ⟨rfl, rfl⟩⟩⟩⟩

/-! ### Payloads -/

/-- What the payload of a tag is read from, after its colon. -/
inductive PayloadForm (depth : Nat) (nested : Option (Reader Attribute)) (bytes rest : List UInt8) :
    String → Attribute → Prop
  | string {s} : (Codec.text.read depth).Reads bytes s rest →
      PayloadForm depth nested bytes rest "S" (.string s)
  | number {text} : (Codec.text.read depth).Reads bytes text rest →
      PayloadForm depth nested bytes rest "N" (.number text)
  | binary {data} : (Codec.text.read depth).Reads bytes (Base64.encode .standard data) rest →
      PayloadForm depth nested bytes rest "B" (.binary data)
  | stringSet {texts} : (Codec.text.list.read depth).Reads bytes texts rest →
      PayloadForm depth nested bytes rest "SS" (.stringSet texts)
  | numberSet {texts} : (Codec.text.list.read depth).Reads bytes texts rest →
      PayloadForm depth nested bytes rest "NS" (.numberSet texts)
  | binarySet {values : List (List UInt8)} :
      (Codec.text.list.read depth).Reads bytes (values.map (Base64.encode .standard)) rest →
      PayloadForm depth nested bytes rest "BS" (.binarySet values)
  | bool {b} : (Codec.flag.read depth).Reads bytes b rest →
      PayloadForm depth nested bytes rest "BOOL" (.bool b)
  | null {b} : (Codec.flag.read depth).Reads bytes b rest →
      PayloadForm depth nested bytes rest "NULL" (.null b)
  | list {items} : (Reader.array nested).Reads bytes items rest →
      PayloadForm depth nested bytes rest "L" (.list items)
  | map {entries} :
      (Reader.object "a map" [] (nested.map Reader.readEntry)).Reads bytes entries rest →
      PayloadForm depth nested bytes rest "M" (.map entries)

section Payload

variable {α β : Type} {reader : Reader α} {wrap : α → Attribute} {bytes rest : List UInt8}
  {a : Attribute}

/-- A payload that is kept as it is read. The tags of texts and of numbers have such payloads. -/
theorem reads_payload :
    Reads (do Reader.colon; return wrap (← reader)) bytes a rest ↔
      ∃ mid, Reader.colon.Reads bytes () mid ∧
        ∃ payload, reader.Reads mid payload rest ∧ wrap payload = a := by
  rw [Reader.reads_bind]
  constructor
  · rintro ⟨_, mid, colon, read⟩
    exact ⟨mid, colon, Reader.reads_map.1 read⟩
  · rintro ⟨mid, colon, payload⟩
    exact ⟨(), mid, colon, Reader.reads_map.2 payload⟩

/-- A payload that is decoded after it is read, where decoding undoes an encoding. For binary data
it is that of base 64. -/
theorem reads_decodedPayload {decode : α → Except ReadError β} {encode : β → α}
    (inverse : ∀ text data, decode text = .ok data ↔ text = encode data) {wrap : β → Attribute} :
    Reads (do Reader.colon; return wrap (← decode (← reader))) bytes a rest ↔
      ∃ mid, Reader.colon.Reads bytes () mid ∧
        ∃ data, reader.Reads mid (encode data) rest ∧ wrap data = a := by
  rw [Reader.reads_bind]
  constructor
  · rintro ⟨_, mid, colon, read⟩
    obtain ⟨text, mid', payload, read⟩ := Reader.reads_bind.1 read
    obtain ⟨data, lifted, same⟩ := Reader.reads_map.1 read
    obtain ⟨decoded, rfl⟩ := Reader.reads_lift.1 lifted
    rw [(inverse text data).1 decoded] at payload
    exact ⟨mid, colon, data, payload, same⟩
  · rintro ⟨mid, colon, data, payload, same⟩
    refine ⟨(), mid, colon, Reader.reads_bind.2 ⟨_, _, payload, ?_⟩⟩
    exact Reader.reads_map.2 ⟨data, Reader.reads_lift.2 ⟨(inverse _ data).2 rfl, rfl⟩, same⟩

end Payload

/-- What is read of a payload has one of the forms that belong to its tag. -/
theorem reads_readPayload {depth : Nat} {nested : Option (Reader Attribute)} {tag : String}
    {bytes rest : List UInt8} {a : Attribute} :
    (readPayload depth nested tag).Reads bytes a rest ↔
      ∃ mid, Reader.colon.Reads bytes () mid ∧ PayloadForm depth nested mid rest tag a := by
  unfold readPayload
  constructor
  · intro read
    split at read
    · obtain ⟨mid, colon, s, payload, rfl⟩ := reads_payload.1 read
      exact ⟨mid, colon, .string payload⟩
    · obtain ⟨mid, colon, text, payload, rfl⟩ := reads_payload.1 read
      exact ⟨mid, colon, .number payload⟩
    · obtain ⟨mid, colon, data, payload, rfl⟩ :=
        (reads_decodedPayload fun _ _ => decodeBinary_eq_ok).1 read
      exact ⟨mid, colon, .binary payload⟩
    · obtain ⟨mid, colon, texts, payload, rfl⟩ := reads_payload.1 read
      exact ⟨mid, colon, .stringSet payload⟩
    · obtain ⟨mid, colon, texts, payload, rfl⟩ := reads_payload.1 read
      exact ⟨mid, colon, .numberSet payload⟩
    · obtain ⟨mid, colon, values, payload, rfl⟩ :=
        (reads_decodedPayload fun _ _ => decodeBinaries_eq_ok).1 read
      exact ⟨mid, colon, .binarySet payload⟩
    · obtain ⟨mid, colon, b, payload, rfl⟩ := reads_payload.1 read
      exact ⟨mid, colon, .bool payload⟩
    · obtain ⟨mid, colon, b, payload, rfl⟩ := reads_payload.1 read
      exact ⟨mid, colon, .null payload⟩
    · obtain ⟨mid, colon, items, payload, rfl⟩ := reads_payload.1 read
      exact ⟨mid, colon, .list payload⟩
    · obtain ⟨mid, colon, entries, payload, rfl⟩ := reads_payload.1 read
      exact ⟨mid, colon, .map payload⟩
    · exact absurd read Reader.not_reads_throw
  · rintro ⟨mid, colon, form⟩
    cases form with
    | string payload => exact reads_payload.2 ⟨mid, colon, _, payload, rfl⟩
    | number payload => exact reads_payload.2 ⟨mid, colon, _, payload, rfl⟩
    | binary payload =>
        exact (reads_decodedPayload fun _ _ => decodeBinary_eq_ok).2 ⟨mid, colon, _, payload, rfl⟩
    | stringSet payload => exact reads_payload.2 ⟨mid, colon, _, payload, rfl⟩
    | numberSet payload => exact reads_payload.2 ⟨mid, colon, _, payload, rfl⟩
    | binarySet payload =>
        exact (reads_decodedPayload fun _ _ => decodeBinaries_eq_ok).2 ⟨mid, colon, _, payload, rfl⟩
    | bool payload => exact reads_payload.2 ⟨mid, colon, _, payload, rfl⟩
    | null payload => exact reads_payload.2 ⟨mid, colon, _, payload, rfl⟩
    | list payload => exact reads_payload.2 ⟨mid, colon, _, payload, rfl⟩
    | map payload => exact reads_payload.2 ⟨mid, colon, _, payload, rfl⟩

/-! ### The document of what is read -/

/-- The document of a payload is read where the payload is. Attributes inside of it are deeper, for
which the last hypothesis stands. -/
theorem PayloadForm.reads_payload {depth : Nat} {tag : String} {bytes rest : List UInt8}
    {a : Attribute} (h : PayloadForm depth (Codec.inside read depth) bytes rest tag a)
    (carries : ∀ d < depth, Carries encode (read d) (Json.reader d)) :
    ∃ payload, encode a = .object [(tag, payload)] ∧
      (Json.reader depth).Reads bytes payload rest := by
  cases h with
  | string payload =>
      refine ⟨_, rfl, ?_⟩
      rw [Json.reader_eq]
      exact Codec.reads_text_iff.1 payload
  | number payload =>
      refine ⟨_, rfl, ?_⟩
      rw [Json.reader_eq]
      exact Codec.reads_text_iff.1 payload
  | binary payload =>
      refine ⟨_, rfl, ?_⟩
      rw [Json.reader_eq]
      exact Codec.reads_text_iff.1 payload
  | stringSet payload => exact ⟨_, rfl, Codec.reads_texts payload⟩
  | numberSet payload => exact ⟨_, rfl, Codec.reads_texts payload⟩
  | binarySet payload =>
      refine ⟨_, rfl, ?_⟩
      rw [← Function.comp_def Json.string, ← List.map_map]
      exact Codec.reads_texts payload
  | bool payload =>
      refine ⟨_, rfl, ?_⟩
      rw [Json.reader_eq]
      exact Codec.reads_flag_iff.1 payload
  | null payload =>
      refine ⟨_, rfl, ?_⟩
      rw [Json.reader_eq]
      exact Codec.reads_flag_iff.1 payload
  | list payload =>
      refine ⟨_, rfl, ?_⟩
      rw [encodeItems_eq_map, Json.reader_eq, Json.reads_readerOver]
      cases depth with
      | zero =>
          obtain ⟨_, _, _, none, _⟩ := Reader.reads_array.1 payload
          cases none
      | succ depth => exact .array ((carries depth depth.lt_succ_self).array payload)
  | map payload =>
      refine ⟨_, rfl, ?_⟩
      rw [encodeEntries_eq_mapValues, Json.reader_eq, Json.reads_readerOver]
      cases depth with
      | zero =>
          obtain ⟨_, _, _, none, _⟩ := Reader.reads_object.1 payload
          cases none
      | succ depth =>
          exact .object (Carries.object (carries depth depth.lt_succ_self).readEntry _ _ [] payload)

/-- Where an attribute is read, its document is read, by induction on the depth. -/
theorem reads_encode (depth : Nat) : Carries encode (read depth) (Json.reader depth) := by
  induction depth using Nat.strongRecOn with
  | ind depth ih =>
      intro bytes a rest h
      cases depth with
      | zero =>
          obtain ⟨_, _, _, none, _⟩ := reads_readOver.1 h
          cases none
      | succ depth =>
          rw [read_succ, reads_readOver] at h
          obtain ⟨start, token, _, same, mid, tagged, finished⟩ := h
          cases same
          obtain ⟨tag, afterKey, afterValue, first, payload, last⟩ := reads_readTagged.1 tagged
          obtain ⟨afterColon, colon, form⟩ := reads_readPayload.1 payload
          obtain ⟨value, same, read⟩ :=
            form.reads_payload fun d hd => ih d (Nat.lt_succ_of_lt hd)
          rw [same, Json.reader_eq, Json.reads_readerOver]
          refine .object (Reader.reads_object.2 ⟨start, token, _, rfl, mid, ?_, finished⟩)
          refine Reader.reads_members_succ.2 (.inr ⟨tag, afterKey, [(tag, value)], afterValue,
            first, Reader.reads_readEntry.2 ⟨afterColon, value, colon, read, rfl⟩, ?_⟩)
          -- the key has taken at least one byte, which leaves fuel to see the end
          obtain ⟨n, fuel⟩ := Nat.exists_eq_succ_of_ne_zero
            (mt List.eq_nil_of_length_eq_zero first.ne_nil)
          rw [fuel]
          exact Reader.reads_members_succ.2 (.inl ⟨last, rfl⟩)

/-! ### What is read from a document -/

/-- Attributes with the same document are the same. -/
theorem encode_injective : Function.Injective encode := by
  intro a b same
  have := decode_encode a
  rw [same, decode_encode] at this
  exact (Except.ok.inj this).symm

/-- The document of an attribute is an object with one member. -/
theorem exists_encode_eq (a : Attribute) : ∃ tag payload, encode a = .object [(tag, payload)] := by
  cases a <;> exact ⟨_, _, rfl⟩

/-- Members are read where those of the documents are, unless a key stands there twice. The two
readers differ in what they do with such a key, and in nothing else. -/
theorem reads_members_of_new {x : Reader Attribute} {y : Reader Json} (lifts : Lifts encode x y)
    {fuel : Nat} {first : Bool} {d d' : Item} {bytes rest : List UInt8}
    (h : (Reader.members (Json.readNewMember y) fuel first (Dict.mapValues encode d)).Reads bytes
      (Dict.mapValues encode d') rest) :
    (Reader.members (Reader.readEntry x) fuel first d).Reads bytes d' rest := by
  induction fuel generalizing first d bytes with
  | zero => exact absurd h Reader.not_reads_fault
  | succ fuel ih =>
      obtain ⟨next, same⟩ | ⟨key, mid, c, mid', next, head, tail⟩ := Reader.reads_members_succ.1 h
      · exact Reader.reads_members_succ.2
          (.inl ⟨next, Dict.mapValues_injective encode_injective same⟩)
      · obtain ⟨fresh, entry⟩ := Json.reads_readNewMember.1 head
        obtain ⟨afterColon, v, colon, read, rfl⟩ := Reader.reads_readEntry.1 entry
        -- the value stays among the members, so it is the document of an attribute
        obtain ⟨added, perm⟩ := Json.exists_perm_of_reads_newMembers tail
        have mem : (key, v) ∈ Dict.mapValues encode d' := by
          rw [perm.mem_iff, List.mem_append, (Dict.insert_perm fresh).mem_iff]
          exact .inr List.mem_cons_self
        obtain ⟨⟨key', a⟩, _, same⟩ := List.mem_map.1 mem
        obtain ⟨rfl, rfl⟩ := Prod.mk.inj same
        rw [Dict.insert_mapValues] at tail
        exact Reader.reads_members_succ.2 (.inr ⟨key', mid, Dict.insert key' a d, mid', next,
          Reader.reads_readEntry.2 ⟨afterColon, a, colon, lifts read, rfl⟩, ih tail⟩)

/-- A payload is read where its document is, unless a key stands there twice. The tag says which
form it has. -/
theorem payloadForm_of_distinct {depth : Nat} {tag : String} {payload : Json}
    {bytes rest : List UInt8} {a : Attribute} (same : encode a = .object [(tag, payload)])
    (h : (Json.distinctReader depth).Reads bytes payload rest)
    (lifts : ∀ d < depth, Lifts encode (read d) (Json.distinctReader d)) :
    PayloadForm depth (Codec.inside read depth) bytes rest tag a := by
  cases a with
  | string s =>
      cases same
      exact .string (Codec.reads_text_of_distinct h depth)
  | number text =>
      cases same
      exact .number (Codec.reads_text_of_distinct h depth)
  | binary data =>
      cases same
      exact .binary (Codec.reads_text_of_distinct h depth)
  | stringSet texts =>
      cases same
      exact .stringSet (Codec.reads_texts_of_distinct h)
  | numberSet texts =>
      cases same
      exact .numberSet (Codec.reads_texts_of_distinct h)
  | binarySet values =>
      cases same
      rw [← Function.comp_def Json.string, ← List.map_map] at h
      exact .binarySet (Codec.reads_texts_of_distinct h)
  | bool b =>
      cases same
      exact .bool (Codec.reads_flag_of_distinct h depth)
  | null b =>
      cases same
      exact .null (Codec.reads_flag_of_distinct h depth)
  | list items =>
      cases same
      rw [encodeItems_eq_map, Json.distinctReader_eq, Json.reads_distinctReaderOver_of_ne (by simp),
        Json.reads_readerOver] at h
      cases h with
      | array container =>
          cases depth with
          | zero =>
              obtain ⟨_, _, _, none, _⟩ := Reader.reads_array.1 container
              cases none
          | succ depth => exact .list ((lifts depth depth.lt_succ_self).array container)
  | map entries =>
      cases same
      rw [encodeEntries_eq_mapValues, Json.distinctReader_eq,
        Json.reads_distinctReaderOver_object] at h
      obtain ⟨start, token, _, same, mid, members, finished⟩ := Reader.reads_object.1 h
      cases depth with
      | zero => cases same
      | succ depth =>
          cases same
          exact .map (Reader.reads_object.2 ⟨start, token, _, rfl, mid,
            reads_members_of_new (lifts depth depth.lt_succ_self) (d := []) members, finished⟩)

/-- As many members as there were before are the same ones, and no other key follows. A second
member in the object of an attribute is excluded in this way. -/
theorem eq_of_reads_newMembers {value : Reader Json} {fuel : Nat} {d d' : Document}
    {bytes rest : List UInt8} (length : d'.length ≤ d.length)
    (h : (Reader.members (Json.readNewMember value) fuel false d).Reads bytes d' rest) :
    (Reader.nextKey false).Reads bytes none rest ∧ d = d' := by
  cases fuel with
  | zero => exact absurd h Reader.not_reads_fault
  | succ fuel =>
      obtain none | ⟨key, mid, c, mid', _, head, tail⟩ := Reader.reads_members_succ.1 h
      · exact none
      · obtain ⟨fresh, entry⟩ := Json.reads_readNewMember.1 head
        obtain ⟨_, v, _, _, rfl⟩ := Reader.reads_readEntry.1 entry
        obtain ⟨added, perm⟩ := Json.exists_perm_of_reads_newMembers tail
        have more := (perm.trans ((Dict.insert_perm fresh).append_left added)).length_eq
        rw [List.length_append, List.length_cons] at more
        omega

/-- Where the document of an attribute is read, and no object in it has a key twice, the attribute
is read, by induction on the depth. -/
theorem reads_of_distinct (depth : Nat) :
    Lifts encode (read depth) (Json.distinctReader depth) := by
  induction depth using Nat.strongRecOn with
  | ind depth ih =>
      intro bytes a rest h
      obtain ⟨tag, payload, same⟩ := exists_encode_eq a
      rw [same, Json.distinctReader_eq, Json.reads_distinctReaderOver_object] at h
      obtain ⟨start, token, _, inner, mid, members, finished⟩ := Reader.reads_object.1 h
      cases depth with
      | zero => cases inner
      | succ depth =>
          cases inner
          obtain ⟨_, none⟩ | ⟨key, afterKey, c, afterValue, first, head, tail⟩ :=
            Reader.reads_members_succ.1 members
          · cases none
          · obtain ⟨_, entry⟩ := Json.reads_readNewMember.1 head
            obtain ⟨afterColon, v, colon, read, rfl⟩ := Reader.reads_readEntry.1 entry
            obtain ⟨last, one⟩ := eq_of_reads_newMembers (by simp [Dict.insert]) tail
            obtain ⟨rfl, rfl⟩ := Prod.mk.inj (List.singleton_inj.1 one)
            have form := payloadForm_of_distinct same read fun d hd => ih d (Nat.lt_succ_of_lt hd)
            rw [read_succ, reads_readOver]
            exact ⟨start, token, _, rfl, mid, reads_readTagged.2 ⟨_, _, _, first,
              reads_readPayload.2 ⟨_, colon, form⟩, last⟩, finished⟩

/-! ### Whole texts -/

/-- A text that is accepted as an attribute is one of its document. Texts in which a key stands
twice are included here, as the last value counts for both. -/
theorem parse_encode {text : String} {a : Attribute} (h : codec.parse text = .ok a) :
    Json.parse text = .ok (encode a) := by
  obtain ⟨rest, read, blank⟩ := Reader.run_eq_ok.1 h
  exact Reader.run_eq_ok.2 ⟨rest, reads_encode _ read, blank⟩

/-- A text in which no object has a key twice is accepted as an attribute if and only if it is one
of its document. -/
theorem parse_eq_ok {text : String} {j : Json} (h : Json.parseDistinct text = .ok j)
    {a : Attribute} : codec.parse text = .ok a ↔ j = encode a := by
  constructor
  · intro accepted
    have same := (Json.parse_of_parseDistinct h).symm.trans (parse_encode accepted)
    exact Except.ok.inj same
  · rintro rfl
    obtain ⟨rest, read, blank⟩ := Reader.run_eq_ok.1 h
    exact Reader.run_eq_ok.2 ⟨rest, reads_of_distinct _ read, blank⟩

/-! ### Printed attributes -/

mutual

/-- Whether the maps inside an attribute have their entries in the order of the names. -/
def Sorted : Attribute → Prop
  | list items => SortedItems items
  | map entries => Dict.Sorted entries ∧ SortedEntries entries
  | _ => True

/-- Whether the maps inside attributes have their entries in the order of the names. -/
def SortedItems : List Attribute → Prop
  | [] => True
  | a :: rest => Sorted a ∧ SortedItems rest

/-- Whether the maps inside entries have their entries in the order of the names. -/
def SortedEntries : List (String × Attribute) → Prop
  | [] => True
  | (_, a) :: rest => Sorted a ∧ SortedEntries rest

end

/-- A tag puts one container around its payload. -/
theorem bounded_tagged {depth : Nat} {tag : String} {payload : Json}
    (nested : (Json.object [(tag, payload)]).nesting ≤ depth)
    (h : ∀ d, payload.nesting ≤ d → Json.Bounded d payload) :
    Json.Bounded depth (.object [(tag, payload)]) := by
  refine .object_of_nesting (List.pairwise_singleton _ _) nested ?_
  rw [List.forall_mem_singleton]
  exact h

theorem bounded_texts {texts : List String} {depth : Nat}
    (nested : (Json.array (texts.map .string)).nesting ≤ depth) :
    Json.Bounded depth (.array (texts.map .string)) := by
  refine .array_of_nesting nested ?_
  rw [List.forall_mem_map]
  exact fun s _ d _ => .string s

mutual

/-- The document of an attribute is within the limit of its nesting. The maps in it must be in
order, since objects are read in order. -/
theorem Sorted.bounded {a : Attribute} (h : a.Sorted) {depth : Nat}
    (nested : (encode a).nesting ≤ depth) : Json.Bounded depth (encode a) := by
  cases a with
  | string s => exact bounded_tagged nested fun d _ => .string s
  | number text => exact bounded_tagged nested fun d _ => .string text
  | binary bytes => exact bounded_tagged nested fun d _ => .string _
  | stringSet texts => exact bounded_tagged nested fun d => bounded_texts
  | numberSet texts => exact bounded_tagged nested fun d => bounded_texts
  | binarySet values =>
      rw [encode, ← Function.comp_def Json.string, ← List.map_map] at nested ⊢
      exact bounded_tagged nested fun d => bounded_texts
  | bool b => exact bounded_tagged nested fun d _ => .bool b
  | null b => exact bounded_tagged nested fun d _ => .bool b
  | list items => 
      exact bounded_tagged nested fun d inner => .array_of_nesting inner (SortedItems.bounded h)
  | map entries =>
      refine bounded_tagged nested fun d inner =>
        .object_of_nesting ?_ inner (SortedEntries.bounded h.2)
      rw [encodeEntries_eq_mapValues]
      exact List.pairwise_map.2 h.1

theorem SortedItems.bounded {items : List Attribute} (h : SortedItems items) :
    ∀ item ∈ encodeItems items, ∀ d, item.nesting ≤ d → Json.Bounded d item := by
  cases items with
  | nil => nofun
  | cons a rest =>
      rw [encodeItems, List.forall_mem_cons]
      exact ⟨fun d => h.1.bounded, SortedItems.bounded h.2⟩

theorem SortedEntries.bounded {entries : List (String × Attribute)} (h : SortedEntries entries) :
    ∀ member ∈ encodeEntries entries, ∀ d, member.2.nesting ≤ d → Json.Bounded d member.2 := by
  cases entries with
  | nil => nofun
  | cons entry rest =>
      obtain ⟨key, a⟩ := entry
      rw [encodeEntries, List.forall_mem_cons]
      exact ⟨fun d => h.1.bounded, SortedEntries.bounded h.2⟩

end

/-- What an attribute is printed as is a text of its document, in which no key stands twice. -/
theorem Sorted.parseDistinct_print {a : Attribute} (h : a.Sorted)
    (nested : (encode a).nesting < 128) :
    Json.parseDistinct (codec.print a) = .ok (encode a) :=
  (h.bounded (Nat.le_of_lt_succ nested)).parseDistinct_compact

/-- Attributes and what is accepted as attributes correspond to each other. A document is accepted
as an attribute if and only if it is the document of the attribute, and the documents accepted are
those with one tag and the payload that belongs to it. A text in which no object has a key twice is
accepted if and only if its document is; any other text that is accepted still has the document of
what it is accepted as. The text that an attribute is printed as is such a text. Only for this last
part the maps have to be in order and the nesting has to be within the limit of readers. -/
theorem codec_exact :
    (∀ j a, codec.decode j = .ok a ↔ j = codec.encode a) ∧
    (∀ j, (∃ a, codec.decode j = .ok a) ↔ Tagged j) ∧
    (∀ text j, Json.parseDistinct text = .ok j →
      ∀ a, codec.parse text = .ok a ↔ j = codec.encode a) ∧
    (∀ text a, codec.parse text = .ok a → Json.parse text = .ok (codec.encode a)) ∧
    (∀ a : Attribute, a.Sorted → (codec.encode a).nesting < 128 →
      Json.parseDistinct (codec.print a) = .ok (codec.encode a) ∧
        codec.parse (codec.print a) = .ok a) := by
  refine ⟨fun _ _ => decode_eq_ok, fun _ => tagged_iff.symm, fun _ _ h _ => parse_eq_ok h,
    fun _ _ => parse_encode, fun a sorted nested => ?_⟩
  have printed := sorted.parseDistinct_print nested
  exact ⟨printed, (parse_eq_ok printed).2 rfl⟩

/-- A map of binary data and of a list that holds a set. -/
theorem codec_exact_map : ∃ a : Attribute,
    a = .map [("b", .binary [0x68, 0x69]), ("l", .list [.null true, .numberSet ["1", "01"]])] ∧
      codec.print a = "\x7b\"M\":\x7b\"b\":\x7b\"B\":\"aGk=\"\x7d,\"l\":" ++
        "\x7b\"L\":[\x7b\"NULL\":true\x7d,\x7b\"NS\":[\"1\",\"01\"]\x7d]\x7d\x7d\x7d" ∧
      codec.decode (codec.encode a) = .ok a ∧ Tagged (codec.encode a) ∧
      codec.parse (codec.print a) = .ok a ∧
      Json.parse (codec.print a) = .ok (codec.encode a) := by
  obtain ⟨documents, forms, texts, accepted, printed⟩ := codec_exact
  have order : Dict.Sorted
      [("b", binary [0x68, 0x69]), ("l", list [null true, numberSet ["1", "01"]])] :=
    List.pairwise_pair.2 (by decide)
  refine ⟨_, rfl, by decide, (documents _ _).2 rfl, (forms _).1 ⟨_, (documents _ _).2 rfl⟩, ?_⟩
  obtain ⟨distinct, parsed⟩ := printed
    (.map [("b", .binary [0x68, 0x69]), ("l", .list [.null true, .numberSet ["1", "01"]])])
    ⟨order, trivial, ⟨trivial, trivial, trivial⟩, trivial⟩ (by decide)
  exact ⟨(texts _ _ distinct _).2 rfl, accepted _ _ parsed⟩

end Attribute

end DocumentTable
