import DocumentTable.Proofs.AttributeText
import DocumentTable.Proofs.Fields
import DocumentTable.Proofs.Skipping

/-!
# Values in texts

What the codecs of each kind read from the text of a document.

## Main results

* `Codec.readsText_int64`, `Codec.readsText_uint32`: integers are read from their documents
* `Codec.readsText_dict`: a dictionary is read from its members in any order
* `Codec.readsText_record`: a record is read from members in any order and among others, when its
  fields are read from those with their keys
-/

namespace DocumentTable

open Reader (Reads requireToken)
open Json (ReadsText Delimited)

namespace Codec

variable {α : Type} {depth : Nat}

/-! ### Scalars -/

theorem readsText_text (depth : Nat) (s : String) : ReadsText (text.read depth) (.string s) s := by
  intro rest _
  have literal := Json.reads_quote s rest
  rw [Json.compact]
  rw [Json.bytesOf_quote] at literal ⊢
  exact reads_text.2 ⟨_, Reader.reads_requireToken_cons rfl _ _, literal⟩

theorem readsText_flag (depth : Nat) (b : Bool) : ReadsText (flag.read depth) (.bool b) b := by
  intro rest _
  cases b with
  | true =>
      refine Reader.reads_bind.2 ⟨0x74, _, Reader.reads_requireToken_cons rfl _ _, ?_⟩
      exact Reader.reads_bind.2
        ⟨(), rest, Reader.reads_advance_word _ _ rest, Reader.reads_pure.2 ⟨rfl, rfl⟩⟩
  | false =>
      refine Reader.reads_bind.2 ⟨0x66, _, Reader.reads_requireToken_cons rfl _ _, ?_⟩
      exact Reader.reads_bind.2
        ⟨(), rest, Reader.reads_advance_word _ _ rest, Reader.reads_pure.2 ⟨rfl, rfl⟩⟩

/-- An integer within bounds is read from its document. It has to be in the range of integers that a
reader keeps exactly. -/
theorem readsText_integer (expected : String) {low high n : Int} (inRange : Json.IntegerInRange n)
    (above : low ≤ n) (below : n ≤ high) :
    ReadsText (readInteger expected low high) (Json.ofInt n) n := by
  intro rest delimited
  have document : Json.ofInt n = .number (.integer n inRange) := by
    rw [Json.ofInt, Json.Number.ofInt?, dif_pos inRange]
  have number := Json.reads_integer inRange delimited
  obtain ⟨negative, unsigned, text, isUnsigned⟩ :=
    Json.exists_isUnsigned (.integer n inRange)
  obtain ⟨b, tail, bytes, notBlank, first, -⟩ := isUnsigned.exists_first negative rest
  have token := Reader.reads_requireToken_cons notBlank .endInValue tail
  rw [← bytes, ← text] at token
  have starts : (decide (b = 0x2D) || Reader.isDigit b) = true := by
    rw [Bool.or_eq_true, decide_eq_true_eq]
    exact first
  have within : integerWithin expected low high (.integer n inRange) = .ok n := by
    rw [integerWithin, if_pos (by simp [above, below])]
  rw [document, Json.compact]
  refine Reader.reads_bind.2 ⟨b, _, token, ?_⟩
  rw [if_pos starts]
  exact Reader.reads_bind.2 ⟨_, _, number, Reader.reads_lift.2 ⟨within, rfl⟩⟩

theorem readsText_int64 (depth : Nat) (n : Int64) :
    ReadsText (int64.read depth) (Json.ofInt n.toInt) n := by
  intro rest delimited
  have above : (-0x8000000000000000 : Int) ≤ n.toInt := n.le_toInt
  have below : n.toInt ≤ 0x7FFFFFFFFFFFFFFF := Int.le_of_lt_add_one n.toInt_lt
  have inRange : Json.IntegerInRange n.toInt := ⟨above, by omega⟩
  exact Reader.reads_map.2 ⟨n.toInt, readsText_integer "i64" inRange above below delimited,
    Int64.ofInt_toInt n⟩

theorem readsText_uint32 (depth : Nat) (n : UInt32) :
    ReadsText (uint32.read depth) (Json.ofInt n.toNat) n := by
  intro rest delimited
  have above : (0 : Int) ≤ n.toNat := Int.natCast_nonneg _
  have below : (n.toNat : Int) ≤ 0xFFFFFFFF := by
    have := n.toNat_lt
    omega
  have inRange : Json.IntegerInRange n.toNat := ⟨by omega, by omega⟩
  have read := readsText_integer "u32" inRange above below delimited
  refine Reader.reads_map.2 ⟨n.toNat, read, ?_⟩
  exact UInt32.ofNat_toNat

/-- A named value is read from its name, which must be found as the name of that value. -/
theorem readsText_choice {names : List (String × α)} {nameOf : α → String} {value : α}
    (named : lookupName names (nameOf value) = .ok value) (depth : Nat) :
    ReadsText ((choice names nameOf).read depth) (.string (nameOf value)) value := by
  intro rest _
  have literal := Json.reads_quote (nameOf value) rest
  rw [Json.compact]
  rw [Json.bytesOf_quote] at literal ⊢
  refine Reader.reads_bind.2 ⟨0x22, _, Reader.reads_requireToken_cons rfl _ _, ?_⟩
  exact Reader.reads_bind.2 ⟨_, _, literal, Reader.reads_lift.2 ⟨named, rfl⟩⟩

/-! ### Containers -/

/-- A list is read from the documents of its values, which may be read as anything that they spell.
-/
theorem readsText_list {c : Codec α} {items : List (α × Json)}
    (reads : ∀ item ∈ items, ReadsText (c.read depth) item.2 item.1) :
    ReadsText (c.list.read (depth + 1)) (.array (items.map Prod.snd)) (items.map Prod.fst) :=
  Json.reads_array reads

/-- The entries of a dictionary are inserted in the order in which they stand. A later entry takes
the place of an earlier one with its key. -/
theorem advances_readEntry {reader : Reader α} {entries : List (String × α × Json)}
    (reads : ∀ entry ∈ entries, ReadsText reader entry.2.2 entry.2.1) (before : Dict α) :
    Json.Advances (Reader.readEntry reader) before
      (entries.map fun entry => (entry.1, entry.2.2))
      ((entries.map fun entry => (entry.1, entry.2.1)).foldl
        (fun d entry => Dict.insert entry.1 entry.2 d) before) := by
  induction entries generalizing before with
  | nil => exact .nil
  | cons entry entries ih =>
      obtain ⟨key, value, j⟩ := entry
      rw [List.forall_mem_cons] at reads
      refine .cons (fun rest delimited => ?_) (ih reads.2 (Dict.insert key value before))
      exact Reader.reads_readEntry.2 ⟨_, value, Json.reads_colon _, reads.1 delimited, rfl⟩

/-- A dictionary is read from its members in any order, as it is put in order on the way. -/
theorem readsText_dict {c : Codec α} {entries : List (String × α × Json)}
    (reads : ∀ entry ∈ entries, ReadsText (c.read depth) entry.2.2 entry.2.1) :
    ReadsText (c.dict.read (depth + 1)) (.object (entries.map fun entry => (entry.1, entry.2.2)))
      (Dict.ofList (entries.map fun entry => (entry.1, entry.2.1))) :=
  (advances_readEntry reads []).reads_object "a map"

theorem readsText_nullable_none (c : Codec α) (depth : Nat) :
    ReadsText (c.nullable.read depth) .null none := by
  intro rest _
  refine Reader.reads_bind.2 ⟨some 0x6E, bytesOf (Json.compact .null) ++ rest, ?_, ?_⟩
  · exact Reader.reads_peekToken.2 ⟨rfl, rfl⟩
  · exact Reader.reads_bind.2
      ⟨(), rest, Reader.reads_advance_word _ _ rest, Reader.reads_pure.2 ⟨rfl, rfl⟩⟩

/-- What is not null is read as its value. Values that are written as null could not be told from an
absent one. -/
theorem readsText_nullable_some {c : Codec α} {j : Json} {value : α} (notNull : j ≠ .null)
    (reads : ReadsText (c.read depth) j value) :
    ReadsText (c.nullable.read depth) j (some value) := by
  intro rest delimited
  obtain ⟨b, tail, bytes, notBlank, -, letter⟩ := Json.exists_compact_eq_cons j
  have read := reads delimited
  rw [bytes, List.cons_append] at read ⊢
  refine Reader.reads_bind.2 ⟨some b, b :: (tail ++ rest), ?_, ?_⟩
  · refine Reader.reads_peekToken.2 ⟨?_, rfl⟩
    exact List.dropWhile_cons_of_neg (by simp [notBlank])
  · split
    · next same => exact absurd (letter (Option.some.inj same)) notNull
    · exact Reader.reads_map.2 ⟨value, read, rfl⟩

/-- An attribute is read from its document with the entries of its maps in any order. -/
theorem readsText_attribute {j : Json} {a : Attribute} (unambiguous : Json.Unambiguous depth j)
    (inOrder : j.inOrder = a.encode) : ReadsText (Attribute.codec.read depth) j a := by
  intro rest delimited
  have read := unambiguous.reads_compact delimited
  rw [inOrder] at read
  exact Attribute.reads_of_distinct depth read

/-! ### Records -/

section Records

variable {σ τ ρ : Type} {fields : Fields τ ρ} {values : τ} {members : Document}

/-- The members of a record, in any order and among others, add their keys to those that have been
met. The induction is on the members; a key that was met before would be refused. -/
theorem advances_readMember (nodup : fields.keys.Nodup) (seen : List String)
    (distinct : (seen ++ fields.met members).Nodup)
    (noAlias : ∀ key ∈ Dict.keys members, key ∉ fields.aliases)
    (reads : ∀ ⦃β : Type⦄ ⦃field : Field β⦄ ⦃value : β⦄, fields.Has field value values →
      ∀ j, (field.key, j) ∈ members → ReadsText (field.codec.read depth) j value) :
    Json.Advances (readMember fields depth) (fields.slots seen values) members
      (fields.slots ((fields.met members).reverse ++ seen) values) := by
  induction members generalizing seen with
  | nil => exact .nil
  | cons member members ih =>
      obtain ⟨key, j⟩ := member
      rw [Dict.keys_cons, List.forall_mem_cons] at noAlias
      have ih' (seen : List String) (distinct : (seen ++ fields.met members).Nodup) :=
        ih seen distinct noAlias.2 fun _ _ _ has j mem => reads has j (List.mem_cons_of_mem _ mem)
      -- a member of an unknown key is passed over, whatever its value is
      by_cases known : key ∈ fields.keys
      · rw [Fields.met_cons_of_mem known] at distinct ⊢
        have fresh : key ∉ seen := fun mem =>
          (List.nodup_append.1 distinct).2.2 key mem key List.mem_cons_self rfl
        obtain ⟨reader, found, read⟩ :=
          Fields.reads_readKey nodup known noAlias.1 fresh depth values
        rw [List.reverse_cons, List.append_assoc]
        refine .cons (fun rest delimited => ?_)
          (ih' (key :: seen) (List.perm_middle.nodup_iff.1 distinct))
        rw [readMember, found]
        refine read (Json.reads_colon _) fun _ _ _ has same => ?_
        subst same
        exact reads has j List.mem_cons_self delimited
      · rw [Fields.met_cons_of_not_mem known] at distinct ⊢
        refine .cons (fun rest delimited => ?_) (ih' seen distinct)
        rw [readMember, Fields.readKey_eq_none known noAlias.1]
        refine Reader.reads_bind.2 ⟨(), _, Json.reads_colon _, ?_⟩
        refine Reader.reads_bind.2 ⟨(), rest, Json.readsText_skipValue j delimited, ?_⟩
        exact Reader.reads_pure.2 ⟨rfl, rfl⟩

/-- A record is read from members in any order and among others, when each field is read from the
only member with its key, or its absence stands for its value. Aliases are excluded, as a member
with one would be read as the field. -/
theorem readsText_record {name : String} {toTuple : σ → τ} {ofTuple : τ → σ}
    (nodup : fields.keys.Nodup) (distinct : (fields.met members).Nodup)
    (noAlias : ∀ key ∈ Dict.keys members, key ∉ fields.aliases)
    (reads : ∀ ⦃β : Type⦄ ⦃field : Field β⦄ ⦃value : β⦄, fields.Has field value values →
      ∀ j, (field.key, j) ∈ members → ReadsText (field.codec.read depth) j value)
    (missing : ∀ ⦃β : Type⦄ ⦃field : Field β⦄ ⦃value : β⦄, fields.Has field value values →
      field.key ∉ Dict.keys members → field.ifMissing = some value) :
    ReadsText ((record name fields toTuple ofTuple).read (depth + 1)) (.object members)
      (ofTuple values) := by
  intro rest _
  have start : fields.slots [] values = fields.noSlots := fields.slots_nil values
  have advances := advances_readMember nodup [] distinct noAlias reads
  rw [start, List.append_nil] at advances
  have complete : fields.finish (fields.slots (fields.met members).reverse values) = .ok values :=
    Fields.finish_slots fun _ _ _ has unmet => missing has fun mem =>
      unmet (List.mem_reverse.2 (Fields.mem_met.2 ⟨mem, has.key_mem⟩))
  have body := advances.reads_members rest
  refine Reader.reads_map.2 ⟨values, ?_, rfl⟩
  rw [Json.bytesOf_object]
  refine Reader.reads_bind.2 ⟨0x7B, _, Reader.reads_requireToken_cons rfl _ _, ?_⟩
  refine Reader.reads_enclosed.2 ⟨_, rfl, 0x7D :: rest, ?_, ?_⟩
  · refine Reader.reads_bind.2 ⟨_, _, Reader.reads_remaining.2 ⟨rfl, rfl⟩, ?_⟩
    exact Reader.reads_bind.2 ⟨_, _, body, Reader.reads_lift.2 ⟨complete, rfl⟩⟩
  · refine Reader.reads_bind.2 ⟨0x7D, _, Reader.reads_requireToken_cons rfl _ _, ?_⟩
    exact Reader.reads_advance.2 rfl

end Records

end Codec

end DocumentTable
