import DocumentTable.Json.Codec
import DocumentTable.Proofs.Dict
import DocumentTable.Proofs.Reader

/-!
# Fields of records

A record is read member by member. What has been read of it so far depends on the keys that have
been met and not on their order.

## Main definitions

* `Fields.keys`, `Fields.aliases`: the keys that the fields of a record are written under and read
  from
* `Fields.Has`: a record has a field with a value
* `Fields.met`: the keys of members that belong to fields
* `Fields.slots`: what has been read of a record when the members with some keys have been

## Main results

* `Fields.reads_readKey`: the member of a field adds its key to those that have been met
* `Fields.finish_slots`: a record is complete when the absence of each missing field stands for its
  value
-/

namespace DocumentTable

namespace Fields

/-- The keys of the fields of a record. -/
def keys : {τ ρ : Type} → Fields τ ρ → List String
  | _, _, nil => []
  | _, _, cons field rest => field.key :: rest.keys

theorem encode_keys_sublist {τ ρ : Type} (fields : Fields τ ρ) (values : τ) :
    ((fields.encode values).map Prod.fst).Sublist fields.keys := by
  induction fields with
  | nil => exact .slnil
  | cons field rest ih =>
      obtain ⟨value, values⟩ := values
      rw [encode, keys]
      split
      · exact (ih values).cons _
      · exact (ih values).cons_cons _

/-- Whether a record has a field with a value. -/
inductive Has {α : Type} (field : Field α) (value : α) : {τ ρ : Type} → Fields τ ρ → τ → Prop
  | head {τ ρ : Type} {rest : Fields τ ρ} {values : τ} :
      Has field value (.cons field rest) (value, values)
  | tail {β τ ρ : Type} {other : Field β} {rest : Fields τ ρ} {first : β} {values : τ} :
      Has field value rest values → Has field value (.cons other rest) (first, values)

section Has

variable {α τ ρ : Type} {fields : Fields τ ρ} {values : τ} {field : Field α} {value : α}

theorem Has.key_mem (h : fields.Has field value values) : field.key ∈ fields.keys := by
  induction h with
  | head => exact List.mem_cons_self
  | tail _ ih => exact List.mem_cons_of_mem _ ih

/-- What a record is written with under the key of a field is the document of the field's value, as
no other field has the key. -/
theorem Has.eq_of_mem_encode (h : fields.Has field value values) (nodup : fields.keys.Nodup)
    {j : Json} (mem : (field.key, j) ∈ fields.encode values) : j = field.codec.encode value := by
  induction h with
  | @head τ ρ rest values =>
      rw [keys, List.nodup_cons] at nodup
      have absent : (field.key, j) ∉ rest.encode values := fun mem =>
        nodup.1 ((encode_keys_sublist rest values).subset (List.mem_map_of_mem mem))
      rw [encode] at mem
      split at mem
      · exact absurd mem absent
      · rcases List.mem_cons.1 mem with same | mem
        · exact (Prod.mk.inj same).2
        · exact absurd mem absent
  | @tail β τ ρ other rest first values has ih =>
      rw [keys, List.nodup_cons] at nodup
      rw [encode] at mem
      split at mem
      · exact ih nodup.2 mem
      · rcases List.mem_cons.1 mem with same | mem
        · exact absurd ((Prod.mk.inj same).1 ▸ has.key_mem) nodup.1
        · exact ih nodup.2 mem

/-- A field that a record is written without has a value that is left out. -/
theorem Has.omits_of_not_mem (h : fields.Has field value values)
    (absent : field.key ∉ (fields.encode values).map Prod.fst) : field.omits value = true := by
  induction h with
  | head =>
      rw [encode] at absent
      split at absent
      · assumption
      · exact absurd List.mem_cons_self absent
  | tail _ ih =>
      refine ih fun mem => absent ?_
      rw [encode]
      split
      · exact mem
      · exact List.mem_cons_of_mem _ mem

end Has

/-- The other keys that the fields of a record are read from. -/
def aliases : {τ ρ : Type} → Fields τ ρ → List String
  | _, _, nil => []
  | _, _, cons field rest => field.aliases ++ rest.aliases

/-- The keys of members that belong to fields of a record. -/
def met {τ ρ : Type} (fields : Fields τ ρ) (members : Document) : List String :=
  (Dict.keys members).filter (· ∈ fields.keys)

section Met

variable {τ ρ : Type} {fields : Fields τ ρ} {members : Document} {key : String} {j : Json}

theorem met_cons_of_mem (known : key ∈ fields.keys) :
    fields.met ((key, j) :: members) = key :: fields.met members :=
  List.filter_cons_of_pos (decide_eq_true known)

theorem met_cons_of_not_mem (other : key ∉ fields.keys) :
    fields.met ((key, j) :: members) = fields.met members :=
  List.filter_cons_of_neg (by rwa [decide_eq_true_eq])

theorem met_append (members others : Document) :
    fields.met (members ++ others) = fields.met members ++ fields.met others := by
  rw [met, Dict.keys, List.map_append, List.filter_append, met, met, Dict.keys, Dict.keys]

theorem mem_met : key ∈ fields.met members ↔ key ∈ Dict.keys members ∧ key ∈ fields.keys := by
  rw [met, List.mem_filter, decide_eq_true_eq]

end Met

/-- What has been read of a record when the members with some keys have been. -/
def slots (seen : List String) : {τ ρ : Type} → Fields τ ρ → τ → ρ
  | _, _, nil, _ => ()
  | _, _, cons field rest, (value, values) =>
    (if field.key ∈ seen then some value else none, rest.slots seen values)

theorem slots_nil {τ ρ : Type} (fields : Fields τ ρ) (values : τ) :
    fields.slots [] values = fields.noSlots := by
  induction fields with
  | nil => rfl
  | cons field rest ih =>
      obtain ⟨value, values⟩ := values
      rw [slots, noSlots, ih, if_neg List.not_mem_nil]

/-- The member of another key leaves the fields as they are. -/
theorem slots_cons_of_not_mem {τ ρ : Type} {fields : Fields τ ρ} {key : String}
    (other : key ∉ fields.keys) (seen : List String) (values : τ) :
    fields.slots (key :: seen) values = fields.slots seen values := by
  induction fields with
  | nil => rfl
  | cons field rest ih =>
      obtain ⟨value, values⟩ := values
      rw [keys, List.mem_cons, not_or] at other
      have same : field.key ∈ key :: seen ↔ field.key ∈ seen := by
        rw [List.mem_cons, or_iff_right (Ne.symm other.1)]
      rw [slots, slots, ih other.2]
      simp only [same]

/-- A record is complete when the absence of the fields that are missing stands for their values. A
field without a default has to be met. -/
theorem finish_slots {τ ρ : Type} {fields : Fields τ ρ} {values : τ} {seen : List String}
    (missing : ∀ ⦃α : Type⦄ ⦃field : Field α⦄ ⦃value : α⦄, fields.Has field value values →
      field.key ∉ seen → field.ifMissing = some value) :
    fields.finish (fields.slots seen values) = .ok values := by
  induction fields with
  | nil => rfl
  | cons field rest ih =>
      obtain ⟨value, values⟩ := values
      have slot : (if field.key ∈ seen then some value else none).or field.ifMissing =
          some value := by
        split
        · rfl
        · next unseen => exact missing .head unseen
      rw [slots, finish]
      simp only [slot]
      rw [ih fun _ _ _ has => missing has.tail]
      rfl

/-- No field is read from a key that belongs to none, and the member is passed over. -/
theorem readKey_eq_none {τ ρ : Type} {fields : Fields τ ρ} {key : String}
    (other : key ∉ fields.keys) (noAlias : key ∉ fields.aliases) (depth : Nat) (state : ρ) :
    fields.readKey depth key state = none := by
  induction fields with
  | nil => rfl
  | cons field rest ih =>
      obtain ⟨slot, state⟩ := state
      rw [keys, List.mem_cons, not_or] at other
      rw [aliases, List.mem_append, not_or] at noAlias
      have differs : ¬(decide (key = field.key) || field.aliases.contains key) = true := by
        simp [other.1, noAlias.1]
      rw [readKey, if_neg differs, ih other.2 noAlias.2]
      rfl

/-- The member of a field is read when its value is, and adds its key to those that have been met.
The key must be new, since a second member of it is refused. -/
theorem reads_readKey {τ ρ : Type} {fields : Fields τ ρ} (nodup : fields.keys.Nodup) {key : String}
    (mem : key ∈ fields.keys) (noAlias : key ∉ fields.aliases) {seen : List String}
    (fresh : key ∉ seen) (depth : Nat) (values : τ) :
    ∃ reader, fields.readKey depth key (fields.slots seen values) = some reader ∧
      ∀ {mid bytes rest : List UInt8}, Reader.colon.Reads mid () bytes →
        (∀ ⦃α : Type⦄ ⦃field : Field α⦄ ⦃value : α⦄, fields.Has field value values →
          field.key = key → (field.codec.read depth).Reads bytes value rest) →
        reader.Reads mid (fields.slots (key :: seen) values) rest := by
  induction fields with
  | nil => cases mem
  | cons field rest ih =>
      obtain ⟨value, values⟩ := values
      rw [keys, List.nodup_cons] at nodup
      rw [aliases, List.mem_append, not_or] at noAlias
      by_cases same : key = field.key
      · subst same
        have meets : (decide (field.key = field.key) || field.aliases.contains field.key) = true :=
          by simp
        rw [slots, readKey, if_pos meets, slots, slots_cons_of_not_mem nodup.1]
        refine ⟨_, rfl, fun colon reads => ?_⟩
        rw [if_neg fresh, if_pos List.mem_cons_self]
        refine Reader.reads_bind.2 ⟨(), _, colon, ?_⟩
        exact Reader.reads_map.2 ⟨value, reads .head rfl, rfl⟩
      · have differs : ¬(decide (key = field.key) || field.aliases.contains key) = true := by
          simp [same, noAlias.1]
        obtain ⟨reader, found, reads⟩ :=
          ih nodup.2 ((List.mem_cons.1 mem).resolve_left same) noAlias.2 values
        have kept : field.key ∈ key :: seen ↔ field.key ∈ seen := by
          rw [List.mem_cons, or_iff_right (Ne.symm same)]
        rw [slots, readKey, if_neg differs, found, slots]
        simp only [kept]
        refine ⟨_, rfl, fun colon each => ?_⟩
        exact Reader.reads_map.2 ⟨_, reads colon fun _ _ _ has => each has.tail, rfl⟩

end Fields

end DocumentTable
