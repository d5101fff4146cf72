import DocumentTable.Json.Codec
import DocumentTable.Proofs.Reader

/-!
# Readings of documents

What each kind of document value is read from, and the texts in which no object has a key twice.

## Main definitions

* `Json.parseDistinct`: the value of a text in which no object has a key twice

## Main results

* `Json.reads_readerOver`: the forms of a value
* `Json.parse_of_parseDistinct`: such a text is read as any other text is
-/

namespace DocumentTable.Json

open Reader (Reads requireToken)

variable {inner : Option (Reader Json)} {bytes rest : List UInt8}

/-- What a value is read from, for each kind of value. -/
inductive Form (inner : Option (Reader Json)) (bytes rest : List UInt8) : Json → Prop
  | null {mid} : (requireToken .endInValue).Reads bytes 0x6E mid →
      Reader.wordNull.Reads mid () rest → Form inner bytes rest null
  | true {mid} : (requireToken .endInValue).Reads bytes 0x74 mid →
      Reader.wordTrue.Reads mid () rest → Form inner bytes rest (bool true)
  | false {mid} : (requireToken .endInValue).Reads bytes 0x66 mid →
      Reader.wordFalse.Reads mid () rest → Form inner bytes rest (bool false)
  | string {mid s} : (requireToken .endInValue).Reads bytes 0x22 mid →
      Reader.readString.Reads mid s rest → Form inner bytes rest (string s)
  | number {b mid n} : (requireToken .endInValue).Reads bytes b mid →
      (b = 0x2D ∨ Reader.isDigit b) → Reader.readNumber.Reads mid n rest →
      Form inner bytes rest (number n)
  | array {items} : (Reader.array inner).Reads bytes items rest →
      Form inner bytes rest (array items)
  | object {members} :
      (Reader.object "any value" [] (inner.map Reader.readEntry)).Reads bytes members rest →
      Form inner bytes rest (object members)

/-- A value is read from its form, which its first token decides on. -/
theorem reads_readerOver {j : Json} :
    (readerOver inner).Reads bytes j rest ↔ Form inner bytes rest j := by
  rw [readerOver, Reader.reads_bind]
  constructor
  · rintro ⟨b, mid, token, read⟩
    split at read
    · obtain ⟨_, _, word, done⟩ := Reader.reads_bind.1 read
      obtain ⟨rfl, rfl⟩ := Reader.reads_pure.1 done
      exact .null token word
    · obtain ⟨_, _, word, done⟩ := Reader.reads_bind.1 read
      obtain ⟨rfl, rfl⟩ := Reader.reads_pure.1 done
      exact .true token word
    · obtain ⟨_, _, word, done⟩ := Reader.reads_bind.1 read
      obtain ⟨rfl, rfl⟩ := Reader.reads_pure.1 done
      exact .false token word
    · obtain ⟨s, literal, rfl⟩ := Reader.reads_map.1 read
      exact .string token literal
    · obtain ⟨items, container, rfl⟩ := Reader.reads_map.1 read
      exact .array (token.after_token.1 container)
    · obtain ⟨members, container, rfl⟩ := Reader.reads_map.1 read
      exact .object (token.after_token.1 container)
    · split at read
      · next starts =>
          obtain ⟨n, literal, rfl⟩ := Reader.reads_map.1 read
          exact .number token (by simpa using starts) literal
      · exact absurd read Reader.not_reads_fault
  · intro form
    cases form with
    | null token word =>
        exact ⟨_, _, token, Reader.reads_bind.2 ⟨_, _, word, Reader.reads_pure.2 ⟨rfl, rfl⟩⟩⟩
    | true token word =>
        exact ⟨_, _, token, Reader.reads_bind.2 ⟨_, _, word, Reader.reads_pure.2 ⟨rfl, rfl⟩⟩⟩
    | false token word =>
        exact ⟨_, _, token, Reader.reads_bind.2 ⟨_, _, word, Reader.reads_pure.2 ⟨rfl, rfl⟩⟩⟩
    | string token literal => exact ⟨_, _, token, Reader.reads_map.2 ⟨_, literal, rfl⟩⟩
    | number token starts literal =>
        refine ⟨_, _, token, ?_⟩
        split
        -- the bytes that other forms start with do not start a number
        · exact absurd starts (by decide)
        · exact absurd starts (by decide)
        · exact absurd starts (by decide)
        · exact absurd starts (by decide)
        · exact absurd starts (by decide)
        · exact absurd starts (by decide)
        · rw [if_pos (by simpa using starts)]
          exact Reader.reads_map.2 ⟨_, literal, rfl⟩
    | array container =>
        obtain ⟨start, token, _⟩ := Reader.reads_array.1 container
        exact ⟨_, _, token, Reader.reads_map.2 ⟨_, token.after_token.2 container, rfl⟩⟩
    | object container =>
        obtain ⟨start, token, _⟩ := Reader.reads_object.1 container
        exact ⟨_, _, token, Reader.reads_map.2 ⟨_, token.after_token.2 container, rfl⟩⟩

/-- A value starts with a brace if and only if it is an object. The two readers of documents differ
in what they do behind one. -/
theorem Form.exists_token {j : Json} (form : Form inner bytes rest j) :
    ∃ b mid, (requireToken .endInValue).Reads bytes b mid ∧
      (b = 0x7B ↔ ∃ members, j = Json.object members) := by
  cases form with
  | null token _ => exact ⟨_, _, token, iff_of_false (by decide) nofun⟩
  | true token _ => exact ⟨_, _, token, iff_of_false (by decide) nofun⟩
  | false token _ => exact ⟨_, _, token, iff_of_false (by decide) nofun⟩
  | string token _ => exact ⟨_, _, token, iff_of_false (by decide) nofun⟩
  | number token starts _ =>
      refine ⟨_, _, token, iff_of_false ?_ nofun⟩
      rintro rfl
      exact absurd starts (by decide)
  | array container =>
      obtain ⟨_, token, _⟩ := Reader.reads_array.1 container
      exact ⟨_, _, token, iff_of_false (by decide) nofun⟩
  | object container =>
      obtain ⟨_, token, _⟩ := Reader.reads_object.1 container
      exact ⟨_, _, token, iff_of_true rfl ⟨_, rfl⟩⟩

/-! ### Objects without repeated keys -/

/-- Reads a member whose key is not among those before it. -/
def readNewMember (value : Reader Json) (key : String) (members : Document) : Reader Document := do
  if key ∈ Dict.keys members then throw (.duplicateField key)
  else Reader.readEntry value key members

/-- The reader of a value, where `inner` reads the values inside a container and no key of an object
may stand there twice. -/
def distinctReaderOver (inner : Option (Reader Json)) : Reader Json := do
  if (← requireToken .endInValue) = 0x7B then
    return object (← Reader.object "any value" [] (inner.map readNewMember))
  else readerOver inner

/-- The reader of a value that nests containers at most `depth` deep and in which no object has a
key twice. -/
def distinctReader : (depth : Nat) → Reader Json
  | 0 => distinctReaderOver none
  | depth + 1 => distinctReaderOver (some (distinctReader depth))

/-- The value of a text in which no object has a key twice. -/
def parseDistinct (text : String) : Except ReadError Json :=
  Reader.run (distinctReader depthLimit) (bytesOf text)

theorem reads_readNewMember {value : Reader Json} {key : String} {d d' : Document} :
    (readNewMember value key d).Reads bytes d' rest ↔
      key ∉ Dict.keys d ∧ (Reader.readEntry value key d).Reads bytes d' rest := by
  rw [readNewMember]
  split
  · next known => exact iff_of_false Reader.not_reads_throw fun h => h.1 known
  · next fresh => exact ⟨fun read => ⟨fresh, read⟩, And.right⟩

/-- Objects are read with new members, and other values from their forms. -/
theorem reads_distinctReaderOver {j : Json} :
    (distinctReaderOver inner).Reads bytes j rest ↔
      (∃ members, j = object members ∧
        (Reader.object "any value" [] (inner.map readNewMember)).Reads bytes members rest) ∨
      (¬∃ members, j = object members) ∧ (readerOver inner).Reads bytes j rest := by
  rw [distinctReaderOver, Reader.reads_bind]
  constructor
  · rintro ⟨b, mid, token, read⟩
    by_cases brace : b = 0x7B
    · rw [if_pos brace] at read
      obtain ⟨members, container, rfl⟩ := Reader.reads_map.1 read
      exact .inl ⟨members, rfl, token.after_token.1 container⟩
    · rw [if_neg brace] at read
      have fromStart : (readerOver inner).Reads bytes j rest := token.after_token.1 read
      obtain ⟨c, mid', token', object⟩ := (reads_readerOver.1 fromStart).exists_token
      obtain ⟨rfl, rfl⟩ := token.unique token'
      exact .inr ⟨mt object.2 brace, fromStart⟩
  · rintro (⟨members, rfl, container⟩ | ⟨other, read⟩)
    · obtain ⟨start, token, _⟩ := Reader.reads_object.1 container
      refine ⟨_, _, token, ?_⟩
      rw [if_pos rfl]
      exact Reader.reads_map.2 ⟨members, token.after_token.2 container, rfl⟩
    · obtain ⟨b, mid, token, object⟩ := (reads_readerOver.1 read).exists_token
      refine ⟨_, _, token, ?_⟩
      rw [if_neg (mt object.1 other)]
      exact token.after_token.2 read

theorem reads_distinctReaderOver_object {members : Document} :
    (distinctReaderOver inner).Reads bytes (object members) rest ↔
      (Reader.object "any value" [] (inner.map readNewMember)).Reads bytes members rest := by
  simp [reads_distinctReaderOver]

/-- A value that is no object is read as usual. -/
theorem reads_distinctReaderOver_of_ne {j : Json} (other : ∀ members, j ≠ object members) :
    (distinctReaderOver inner).Reads bytes j rest ↔ (readerOver inner).Reads bytes j rest := by
  simp [reads_distinctReaderOver, other]

theorem reader_eq (depth : Nat) : reader depth = readerOver (Codec.inside reader depth) := by
  cases depth <;> rfl

theorem distinctReader_eq (depth : Nat) :
    distinctReader depth = distinctReaderOver (Codec.inside distinctReader depth) := by
  cases depth <;> rfl

/-- A text in which no object has a key twice is read like any other text, by induction on the
depth. -/
theorem reads_reader_of_distinct {depth : Nat} {bytes rest : List UInt8} {j : Json}
    (h : (distinctReader depth).Reads bytes j rest) : (reader depth).Reads bytes j rest := by
  induction depth generalizing bytes j rest with
  | zero =>
      obtain ⟨members, rfl, container⟩ | ⟨_, read⟩ := reads_distinctReaderOver.1 h
      · obtain ⟨_, _, _, none, _⟩ := Reader.reads_object.1 container
        cases none
      · exact read
  | succ depth ih =>
      have carries : Reader.Carries id (distinctReader depth) (reader depth) := fun _ _ _ => ih
      -- only objects are read in a way of their own
      obtain ⟨members, rfl, container⟩ | ⟨other, read⟩ := reads_distinctReaderOver.1 h
      · refine reads_readerOver.2 (.object ?_)
        refine Reader.Carries.object (f := id) ?_ "any value" "any value" [] container
        intro key d bytes d' rest read
        have entry := carries.readEntry key d (reads_readNewMember.1 read).2
        rwa [Dict.mapValues_id, Dict.mapValues_id] at entry
      · cases reads_readerOver.1 read with
        | array container =>
            refine reads_readerOver.2 (.array ?_)
            have := carries.array container
            rwa [List.map_id] at this
        | object => exact absurd ⟨_, rfl⟩ other
        | null token word => exact reads_readerOver.2 (.null token word)
        | true token word => exact reads_readerOver.2 (.true token word)
        | false token word => exact reads_readerOver.2 (.false token word)
        | string token literal => exact reads_readerOver.2 (.string token literal)
        | number token starts literal => exact reads_readerOver.2 (.number token starts literal)

/-- New members are added to those before them, of which none is lost. The order is that of the
names, so this holds up to order. -/
theorem exists_perm_of_reads_newMembers {value : Reader Json} {fuel : Nat} {first : Bool}
    {d d' : Document} {bytes rest : List UInt8}
    (h : (Reader.members (readNewMember value) fuel first d).Reads bytes d' rest) :
    ∃ added, d'.Perm (added ++ d) := by
  induction fuel generalizing first d bytes with
  | zero => exact absurd h Reader.not_reads_fault
  | succ fuel ih =>
      obtain ⟨_, rfl⟩ | ⟨key, mid, c, mid', _, head, tail⟩ := Reader.reads_members_succ.1 h
      · exact ⟨[], .refl _⟩
      · obtain ⟨fresh, entry⟩ := reads_readNewMember.1 head
        obtain ⟨_, v, _, _, rfl⟩ := Reader.reads_readEntry.1 entry
        obtain ⟨added, perm⟩ := ih tail
        refine ⟨added ++ [(key, v)], perm.trans ?_⟩
        rw [List.append_assoc]
        exact (Dict.insert_perm fresh).append_left added

theorem parse_of_parseDistinct {text : String} {j : Json} (h : parseDistinct text = .ok j) :
    parse text = .ok j := by
  obtain ⟨rest, read, blank⟩ := Reader.run_eq_ok.1 h
  exact Reader.run_eq_ok.2 ⟨rest, reads_reader_of_distinct read, blank⟩

end DocumentTable.Json
