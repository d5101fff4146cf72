import DocumentTable.Proofs.Emission
import DocumentTable.Proofs.Fields
import DocumentTable.Table.Requests

/-!
# Closed requests

The service refuses a request with a reference that stands for nothing, and also one with a
placeholder that nothing refers to. No request has either: the placeholders that a request carries
are those that its expressions refer to.

## Main definitions

* `Json.member?`, `clausesOf`: the members of a body, and the expressions among them
* `Matches`: expressions refer to the given names and values, to each of these once
* `Closed`: a body carries the expressions of a request and what their placeholders stand for

## Main results

* `Table.requests_closed`: every request with expressions is closed

## Design notes

A reference is a whole token, so that `#attr1` does not occur in `#attr10`. What is said about a
request is also said about its body, where a dictionary that is empty is left out.
-/

namespace DocumentTable

open Registry

/-! ### Members of bodies -/

/-- The member of an object with the given key. -/
def Json.member? (key : String) : Json → Option Json
  | .object members => Dict.get? members key
  | _ => none

/-- The keys of the members of a body that are expressions. -/
def clauseKeys : List String :=
  ["UpdateExpression", "KeyConditionExpression", "ConditionExpression", "FilterExpression",
    "ProjectionExpression"]

/-- The text of a value that is text. -/
def Json.text? : Json → Option String
  | .string text => some text
  | _ => none

/-- The expressions in a body. -/
def clausesOf (body : Json) : List String :=
  clauseKeys.filterMap fun key => (body.member? key).bind Json.text?

/-- The member with the given key, if a field is written under it. -/
def Field.member? {α : Type} (field : Field α) (value : α) (k : String) : Option Json :=
  if field.key = k then if field.omits value then none else some (field.codec.encode value)
  else none

/-- A required field writes its value under its key, whatever the value is. -/
@[simp] theorem Field.member?_required {α : Type} (key : String) (c : Codec α) (value : α)
    (k : String) :
    (Field.required key c).member? value k = if key = k then some (c.encode value) else none := rfl

/-- An optional field writes nothing when it has no value. -/
@[simp] theorem Field.member?_optional {α : Type} (key : String) (c : Codec α) (value : Option α)
    (k : String) :
    (Field.optional key c).member? value k = if key = k then value.map c.encode else none := by
  cases value <;> rfl

/-- A dictionary that may be left out writes nothing when it is empty. Requests keep their
placeholders in such fields. -/
@[simp] theorem Field.member?_dictOrNothing {α : Type} (key : String) (c : Codec α) (value : Dict α)
    (k : String) :
    (Field.dictOrNothing key c).member? value k =
      if key = k then if value.isEmpty then none else some (c.dict.encode value) else none := rfl

namespace Fields

/-- The members of a record are found among its fields: the first field is asked, and then the
others. -/
@[simp] theorem get?_encode_cons {α τ ρ : Type} (field : Field α) (rest : Fields τ ρ) (value : α)
    (values : τ) (k : String) :
    Dict.get? ((cons field rest).encode (value, values)) k =
      (field.member? value k).or (Dict.get? (rest.encode values) k) := by
  rw [encode, Field.member?]
  cases field.omits value with
  | true => simp
  | false =>
      by_cases h : field.key = k
      · simp [h]
      · simp [h]

@[simp] theorem get?_encode_nil (k : String) : Dict.get? (nil.encode ()) k = none := rfl

end Fields

/-- A member of a record is that of one of its fields. The keys of the fields have to be distinct,
so that no field hides another one. -/
theorem Codec.member?_record {σ τ ρ : Type} {name : String} {fields : Fields τ ρ} {toTuple : σ → τ}
    {ofTuple : τ → σ} (h : fields.keys.Nodup) (value : σ) (k : String) :
    ((Codec.record name fields toTuple ofTuple).encode value).member? k =
      Dict.get? (fields.encode (toTuple value)) k :=
  Dict.get?_ofList_eq ((fields.encode_keys_sublist _).nodup h) k

/-! ### Closed bodies -/

/-- Expressions refer to the given names and values and to nothing else, to each of the values
once. -/
structure Matches (clauses : List String) (names values : List String) : Prop where
  mem_names : ∀ key, key ∈ clauses.flatMap nameRefs ↔ key ∈ names
  mem_values : ∀ key, key ∈ clauses.flatMap valueRefs ↔ key ∈ values
  nodup_values : (clauses.flatMap valueRefs).Nodup

/-- A body carries expressions and what their placeholders stand for. -/
structure Carries (clauses : List String) (names : Dict String) (values : Dict Attribute)
    (body : Json) : Prop where
  clauses_eq : clausesOf body = clauses
  /-- The names are there if there are any. -/
  names_eq : body.member? "ExpressionAttributeNames" =
    if names.isEmpty then none else some (Codec.text.dict.encode names)
  /-- The values are there if there are any. -/
  values_eq : body.member? "ExpressionAttributeValues" =
    if values.isEmpty then none else some (Attribute.codec.dict.encode values)

/-- A body carries expressions and what their placeholders stand for, and nothing else stands for
anything. -/
structure Closed (clauses : List String) (names : Dict String) (values : Dict Attribute)
    (body : Json) : Prop where
  closed : Matches clauses (Dict.keys names) (Dict.keys values)
  carried : Carries clauses names values body

@[simp] theorem Codec.bind_text?_map_encode (text : Option String) :
    (text.map Codec.text.encode).bind Json.text? = text := by
  cases text <;> rfl

@[simp] theorem Codec.text?_encode (text : String) :
    (Codec.text.encode text).text? = some text := rfl

/-- A record carries the expressions and the placeholders that its fields write, whatever other
fields it has. For a record whose fields are given, what they write under the keys in question is
found by looking at each field once. -/
theorem carries_record {σ τ ρ : Type} {name : String} {fields : Fields τ ρ} {toTuple : σ → τ}
    {ofTuple : τ → σ} {clauses : List String} {names : Dict String} {values : Dict Attribute}
    (r : σ) (distinct : fields.keys.Nodup := by decide)
    (clauses_eq : (clauseKeys.flatMap fun key =>
      ((Dict.get? (fields.encode (toTuple r)) key).bind Json.text?).toList) = clauses := by
        simp [clauseKeys])
    (names_eq : Dict.get? (fields.encode (toTuple r)) "ExpressionAttributeNames" =
      if names.isEmpty then none else some (Codec.text.dict.encode names) := by simp)
    (values_eq : Dict.get? (fields.encode (toTuple r)) "ExpressionAttributeValues" =
      if values.isEmpty then none else some (Attribute.codec.dict.encode values) := by simp) :
    Carries clauses names values ((Codec.record name fields toTuple ofTuple).encode r) := by
  constructor
  · rw [clausesOf, List.filterMap_eq_flatMap_toList, ← clauses_eq]
    simp only [Codec.member?_record distinct]
  · rw [Codec.member?_record distinct, names_eq]
  · rw [Codec.member?_record distinct, values_eq]

/-! ### Expressions of a request -/

namespace Traced

variable {ε α β : Type}

/-- A sequence that succeeds is a success of its first part and of the rest. -/
theorem exists_of_result_bind {x : Traced ε α} {f : α → Traced ε β} {b : β}
    (h : (x >>= f).result = .ok b) : ∃ a, x.result = .ok a ∧ (f a).result = .ok b := by
  rw [result_bind] at h
  cases first : x.result with
  | error cause =>
      rw [first] at h
      cases h
  | ok a =>
      rw [first] at h
      exact ⟨a, rfl, h⟩

/-- After a success the result is that of the rest. -/
theorem result_bind_of_ok {x : Traced ε α} {a : α} (h : x.result = .ok a) (f : α → Traced ε β) :
    (x >>= f).result = (f a).result := by
  rw [result_bind, h]
  rfl

/-- What a list of computations makes is made by one of them. -/
theorem exists_of_mem_result_mapM {f : α → Traced ε β} {xs : List α} {ys : List β}
    (h : (xs.mapM f).result = .ok ys) {y : β} (hy : y ∈ ys) :
    ∃ x ∈ xs, (f x).result = .ok y := by
  induction xs generalizing ys with
  | nil =>
      cases h
      cases hy
  | cons x xs ih =>
      rw [List.mapM_cons] at h
      obtain ⟨first, hfirst, h⟩ := exists_of_result_bind h
      obtain ⟨others, hothers, h⟩ := exists_of_result_bind h
      cases h
      rcases List.mem_cons.1 hy with rfl | hy
      · exact ⟨x, List.mem_cons_self, hfirst⟩
      · obtain ⟨x', hx', result⟩ := ih hothers hy
        exact ⟨x', List.mem_cons_of_mem x hx', result⟩

end Traced

namespace Expressions

variable {α : Type}

/-- A computation makes the given texts out of its registry. -/
def Makes (x : Expressions α) (texts : α → List String) : Prop :=
  ∀ r s a, (x.run r).result = .ok (a, s) → ∃ names values, Emits r s (texts a) names values

/-- What is reported while an expression is made does not change what is made, nor the registry. -/
theorem run_make_ok {expression : Allocation α} {event : α → Registry → Option Event}
    {r s : Registry} {a : α} (h : ((make expression event).run r).result = .ok (a, s)) :
    expression.run.run r = (.ok a, s) := by
  change (make expression event r).result = _ at h
  rw [make] at h
  generalize expression.run.run r = outcome at h ⊢
  obtain ⟨result, registry⟩ := outcome
  cases result with
  | error cause => cases h
  | ok clause =>
      cases h
      rfl

/-- A condition makes its text, or none when there is no condition. -/
theorem makes_condition (c : Option Condition) : Makes (condition c) Option.toList := by
  intro r s a h
  cases c with
  | none =>
      cases h
      exact ⟨[], [], .nil r⟩
  | some c =>
      obtain ⟨⟨clause, s'⟩, made, h⟩ := Traced.exists_of_result_bind h
      cases h
      exact c.emits (run_make_ok made)

theorem makes_update (tree : UpdateTree) : Makes (update tree) fun text => [text] := by
  intro r s a h
  obtain ⟨⟨clauses, s'⟩, made, h⟩ := Traced.exists_of_result_bind h
  cases h
  exact tree.emits (run_make_ok made)

theorem makes_keyCondition (key : KeyCondition) :
    Makes (keyCondition key) fun text => [text] := by
  intro r s a h
  obtain ⟨⟨clause, s'⟩, made, h⟩ := Traced.exists_of_result_bind h
  cases h
  exact key.emits (run_make_ok made)

/-- Texts that are made one after the other, out of one registry. The requests with two expressions
share their placeholders in this way. -/
theorem Makes.pair {β : Type} {x : Expressions α} {y : Expressions β} {texts : α → List String}
    {texts' : β → List String} (h : Makes x texts) (h' : Makes y texts') :
    Makes (do return (← x, ← y)) fun both => texts both.1 ++ texts' both.2 := by
  intro r t both hrun
  -- the second text is made with the registry that the first one leaves
  obtain ⟨⟨a, s⟩, first, hrun⟩ := Traced.exists_of_result_bind hrun
  obtain ⟨⟨b, t'⟩, second, hrun⟩ := Traced.exists_of_result_bind hrun
  cases hrun
  obtain ⟨_, _, emits⟩ := h r s a first
  obtain ⟨_, _, emits'⟩ := h' s t b second
  exact ⟨_, _, emits.append emits'⟩

end Expressions

/-- Texts that are made out of an empty registry match the names and the values in it. That it was
empty before leaves no placeholder which the texts do not refer to. -/
theorem Registry.Emits.matches {s : Registry} {texts : List String} {names : List NameEntry}
    {values : List ValueEntry} (h : Emits .empty s texts names values) :
    Matches texts (Dict.keys s.nameDict) (s.values.map fun entry => entry.1.text) where
  mem_names key := by
    rw [h.mem_nameRefs, nameDict, Dict.mem_keys_ofList, List.map_map]
    constructor
    · intro hkey
      obtain ⟨entry, hentry, rfl⟩ := List.mem_map.1 hkey
      exact List.mem_map_of_mem (h.placed.mem_names entry hentry)
    · intro hkey
      obtain ⟨entry, hentry, rfl⟩ := List.mem_map.1 hkey
      -- the registry was empty, so its names were all given out for the texts
      rcases h.placed.of_mem_names entry hentry with hentry | hentry
      · cases hentry
      · exact List.mem_map_of_mem hentry
  mem_values key := by
    rw [h.valueRefs_eq, h.placed.values_eq]
    rfl
  nodup_values := by
    have distinct := (wellFormed_empty.of_grows h.placed.grows).nodup_valueTexts
    rw [h.placed.values_eq, List.map_map] at distinct
    rw [h.valueRefs_eq]
    exact distinct

namespace Table

/-- Named values keep their names when they are encoded, which carries the placeholders over to the
attributes that are sent. -/
theorem mem_keys_encodeEntries {t : Table} {entries : List (String × Json)} {item : Item}
    (h : t.encodeEntries entries = .ok item) {key : String} :
    key ∈ Dict.keys item ↔ key ∈ entries.map Prod.fst := by
  obtain ⟨encoded, hencoded, h⟩ := exists_of_except_bind h
  cases h
  rw [Dict.mem_keys_ofList]
  cases values : Dict.mapValuesM t.marshaller.encode entries with
  | error cause =>
      rw [values] at hencoded
      cases hencoded
  | ok result =>
      rw [values] at hencoded
      cases hencoded
      show key ∈ Dict.keys _ ↔ _
      rw [Dict.keys_mapValuesM values]
      rfl

/-- The expressions of a request match what their placeholders stand for. The texts are a parameter,
so that this covers requests with one expression and with two. -/
theorem matches_of_substituted {α : Type} {t : Table} {x : Expressions α}
    {texts : α → List String} (hx : x.Makes texts) {a : α} {names : Dict String}
    {values : Dict Attribute} (h : (t.substituted x).result = .ok (a, ⟨names, values⟩)) :
    Matches (texts a) (Dict.keys names) (Dict.keys values) := by
  obtain ⟨⟨_, s⟩, made, h⟩ := Traced.exists_of_result_bind h
  obtain ⟨_, substituted, h⟩ := Traced.exists_of_result_bind h
  cases h
  obtain ⟨item, encoded, substituted⟩ := exists_of_except_bind substituted
  cases substituted
  obtain ⟨_, _, emits⟩ := hx _ s _ made
  have closed := emits.matches
  refine ⟨closed.mem_names, ?_, closed.nodup_values⟩
  intro key
  rw [closed.mem_values, mem_keys_encodeEntries encoded, List.map_map]
  rfl

/-- The text of a projection matches its names, and there are no values. -/
theorem matches_projection (paths : List Path) :
    Matches (projection paths).1.toList (Dict.keys (projection paths).2) [] := by
  rw [projection]
  split
  · exact ⟨by simp, by simp, List.nodup_nil⟩
  · obtain ⟨_, emits⟩ := emits_projectionText paths .empty
    have closed := emits.matches
    have values := emits.placed.values_eq
    -- a projection has no values
    rw [List.append_nil] at values
    rw [values] at closed
    exact closed

/-! ### Requests -/

variable {t : Table}

/-- A get is closed: it has a projection with its names, or neither of them. -/
theorem closed_getRequest {key : Document} {options : GetOptions} {r : Request.GetItem}
    (h : t.getRequest key options = .ok r) :
    Closed r.projection.toList r.names [] (Request.GetItem.codec.encode r) := by
  obtain ⟨_, -, h⟩ := exists_of_except_bind h
  cases h
  exact ⟨matches_projection _, carries_record _⟩

/-- A put is closed, with a condition and without one. -/
theorem closed_putRequest {item : Document} {options : WriteOptions} {r : Request.PutItem}
    (h : (t.putRequest item options).result = .ok r) :
    Closed r.condition.toList r.names r.values (Request.PutItem.codec.encode r) := by
  obtain ⟨⟨_, _, _⟩, made, h⟩ := Traced.exists_of_result_bind h
  obtain ⟨_, -, h⟩ := Traced.exists_of_result_bind h
  cases h
  exact ⟨matches_of_substituted (Expressions.makes_condition _) made, carries_record _⟩

/-- The expressions of an update are its text and, if there is one, that of its condition. -/
theorem makes_updateExpressions (tree : UpdateTree) (condition : Option Condition) :
    (updateExpressions tree condition).Makes fun both => both.1 :: both.2.toList :=
  (Expressions.makes_update tree).pair (Expressions.makes_condition condition)

/-- An update is closed over both of its expressions together, as they share placeholders. -/
theorem closed_updateRequest {key : Document} {updates : UpdateTree} {options : SetOptions}
    {r : Request.UpdateItem} (h : (t.updateRequest key updates options).result = .ok r) :
    Closed (r.update :: r.condition.toList) r.names r.values
      (Request.UpdateItem.codec.encode r) := by
  obtain ⟨_, -, h⟩ := Traced.exists_of_result_bind h
  obtain ⟨⟨⟨_, _⟩, _, _⟩, made, h⟩ := Traced.exists_of_result_bind h
  cases h
  exact ⟨matches_of_substituted (makes_updateExpressions _ _) made, carries_record _⟩

/-- A delete is closed, with a condition and without one. -/
theorem closed_deleteRequest {key : Document} {options : WriteOptions} {r : Request.DeleteItem}
    (h : (t.deleteRequest key options).result = .ok r) :
    Closed r.condition.toList r.names r.values (Request.DeleteItem.codec.encode r) := by
  obtain ⟨_, -, h⟩ := Traced.exists_of_result_bind h
  obtain ⟨⟨_, _, _⟩, made, h⟩ := Traced.exists_of_result_bind h
  cases h
  exact ⟨matches_of_substituted (Expressions.makes_condition _) made, carries_record _⟩

/-- The expressions of a query are its key condition and, if there is one, its filter. -/
theorem makes_queryExpressions (key : KeyCondition) (filter : Option Condition) :
    (queryExpressions key filter).Makes fun both => both.1 :: both.2.toList :=
  (Expressions.makes_keyCondition key).pair (Expressions.makes_condition filter)

/-- A query is closed over its key condition and its filter together. -/
theorem closed_queryRequest {index : Option String} {partition : Json} {options : QueryOptions}
    {r : Request.Query} (h : (t.queryRequest index partition options).result = .ok r) :
    Closed (r.keyCondition :: r.filter.toList) r.names r.values
      (Request.Query.codec.encode r) := by
  obtain ⟨_, -, h⟩ := Traced.exists_of_result_bind h
  obtain ⟨_, -, h⟩ := Traced.exists_of_result_bind h
  obtain ⟨_, -, h⟩ := Traced.exists_of_result_bind h
  obtain ⟨⟨⟨_, _⟩, _, _⟩, made, h⟩ := Traced.exists_of_result_bind h
  cases h
  exact ⟨matches_of_substituted (makes_queryExpressions _ _) made, carries_record _⟩

/-- A scan is closed, with a filter and without one. -/
theorem closed_scanRequest {index : Option String} {options : ScanOptions} {r : Request.Scan}
    (h : (t.scanRequest index options).result = .ok r) :
    Closed r.filter.toList r.names r.values (Request.Scan.codec.encode r) := by
  obtain ⟨_, -, h⟩ := Traced.exists_of_result_bind h
  obtain ⟨_, -, h⟩ := Traced.exists_of_result_bind h
  obtain ⟨⟨_, _, _⟩, made, h⟩ := Traced.exists_of_result_bind h
  cases h
  exact ⟨matches_of_substituted (Expressions.makes_condition _) made, carries_record _⟩

/-- What a batch reads of one table is closed, in each of its requests: all of them carry the same
projection. -/
theorem closed_batchGetRequests {keys : List Document} {options : GetOptions}
    {requests : List Request.BatchGetItem} (h : t.batchGetRequests keys options = .ok requests)
    {request : Request.BatchGetItem} (hrequest : request ∈ requests) {entry : String × KeysRead}
    (hentry : entry ∈ request.tables) :
    Closed entry.2.projection.toList entry.2.names [] (KeysRead.codec.encode entry.2) := by
  obtain ⟨_, -, h⟩ := exists_of_except_bind h
  cases h
  obtain ⟨keys, -, rfl⟩ := List.mem_map.1 hrequest
  rw [List.mem_singleton] at hentry
  subst hentry
  exact ⟨matches_projection _, carries_record _⟩

/-- The writes in an entry of a transaction are closed. -/
structure ClosedEntry (entry : TransactWriteEntry) : Prop where
  put : ∀ put ∈ entry.put,
    Closed put.condition.toList put.names put.values (TransactPut.codec.encode put)
  delete : ∀ delete ∈ entry.delete,
    Closed delete.condition.toList delete.names delete.values (TransactDelete.codec.encode delete)
  update : ∀ update ∈ entry.update,
    Closed (update.update :: update.condition.toList) update.names update.values
      (TransactUpdate.codec.encode update)
  /-- A transaction checks nothing that it does not write. -/
  check : entry.check = none

/-- A put in a transaction is closed, and so are the kinds of entry that it is not. -/
theorem closed_transactPut {item : ConditionalItem} {entry : TransactWriteEntry}
    (h : (t.transactPut item).result = .ok entry) : ClosedEntry entry := by
  obtain ⟨⟨_, _, _⟩, made, h⟩ := Traced.exists_of_result_bind h
  obtain ⟨_, -, h⟩ := Traced.exists_of_result_bind h
  cases h
  refine ⟨?_, nofun, nofun, rfl⟩
  rintro _ ⟨⟩
  exact ⟨matches_of_substituted (Expressions.makes_condition _) made, carries_record _⟩

/-- A delete in a transaction is closed, and so are the kinds of entry that it is not. -/
theorem closed_transactDelete {item : ConditionalItem} {entry : TransactWriteEntry}
    (h : (t.transactDelete item).result = .ok entry) : ClosedEntry entry := by
  obtain ⟨_, -, h⟩ := Traced.exists_of_result_bind h
  obtain ⟨⟨_, _, _⟩, made, h⟩ := Traced.exists_of_result_bind h
  cases h
  refine ⟨nofun, ?_, nofun, rfl⟩
  rintro _ ⟨⟩
  exact ⟨matches_of_substituted (Expressions.makes_condition _) made, carries_record _⟩

/-- An update in a transaction is closed, and so are the kinds of entry that it is not. -/
theorem closed_transactUpdate {update : ConditionalUpdate} {entry : TransactWriteEntry}
    (h : (t.transactUpdate update).result = .ok entry) : ClosedEntry entry := by
  obtain ⟨_, -, h⟩ := Traced.exists_of_result_bind h
  obtain ⟨⟨⟨_, _⟩, _, _⟩, made, h⟩ := Traced.exists_of_result_bind h
  cases h
  refine ⟨nofun, nofun, ?_, rfl⟩
  rintro _ ⟨⟩
  exact ⟨matches_of_substituted (makes_updateExpressions _ _) made, carries_record _⟩

/-- Each entry of a transaction is closed on its own. Entries do not share placeholders, although
they are sent together. -/
theorem closed_transactWriteRequest {transaction : Transaction}
    {request : Request.TransactWriteItems}
    (h : (t.transactWriteRequest transaction).result = .ok request) {entry : TransactWriteEntry}
    (hentry : entry ∈ request.entries) : ClosedEntry entry := by
  rw [transactWriteRequest] at h
  split at h
  · cases h
  obtain ⟨deletes, hdeletes, h⟩ := Traced.exists_of_result_bind h
  obtain ⟨puts, hputs, h⟩ := Traced.exists_of_result_bind h
  obtain ⟨updates, hupdates, h⟩ := Traced.exists_of_result_bind h
  cases h
  rcases List.mem_append.1 hentry with hentry | hentry
  · rcases List.mem_append.1 hentry with hentry | hentry
    · obtain ⟨_, -, made⟩ := Traced.exists_of_mem_result_mapM hdeletes hentry
      exact closed_transactDelete made
    · obtain ⟨_, -, made⟩ := Traced.exists_of_mem_result_mapM hputs hentry
      exact closed_transactPut made
  · obtain ⟨_, -, made⟩ := Traced.exists_of_mem_result_mapM hupdates hentry
    exact closed_transactUpdate made

/-- Every request with expressions is closed, of whichever kind and for whatever input it is made:
its expressions refer to all that its placeholders stand for and to nothing else, and its body
carries what they stand for unless that is nothing. All that is asked is that the request could be
made. -/
theorem requests_closed (t : Table) :
    (∀ item options r, (t.putRequest item options).result = .ok r →
      Closed r.condition.toList r.names r.values (Request.PutItem.codec.encode r)) ∧
    (∀ key updates options r, (t.updateRequest key updates options).result = .ok r →
      Closed (r.update :: r.condition.toList) r.names r.values
        (Request.UpdateItem.codec.encode r)) ∧
    (∀ key options r, (t.deleteRequest key options).result = .ok r →
      Closed r.condition.toList r.names r.values (Request.DeleteItem.codec.encode r)) ∧
    (∀ index partition options r, (t.queryRequest index partition options).result = .ok r →
      Closed (r.keyCondition :: r.filter.toList) r.names r.values
        (Request.Query.codec.encode r)) ∧
    (∀ index options r, (t.scanRequest index options).result = .ok r →
      Closed r.filter.toList r.names r.values (Request.Scan.codec.encode r)) ∧
    (∀ key options r, t.getRequest key options = .ok r →
      Closed r.projection.toList r.names [] (Request.GetItem.codec.encode r)) ∧
    (∀ keys options requests, t.batchGetRequests keys options = .ok requests →
      ∀ request ∈ requests, ∀ entry ∈ request.tables,
        Closed entry.2.projection.toList entry.2.names [] (KeysRead.codec.encode entry.2)) ∧
    ∀ transaction request, (t.transactWriteRequest transaction).result = .ok request →
      ∀ entry ∈ request.entries, ClosedEntry entry :=
  ⟨fun _ _ _ => closed_putRequest, fun _ _ _ _ => closed_updateRequest,
    fun _ _ _ => closed_deleteRequest, fun _ _ _ _ => closed_queryRequest,
    fun _ _ _ => closed_scanRequest, fun _ _ _ => closed_getRequest,
    fun _ _ _ h _ hrequest _ hentry => closed_batchGetRequests h hrequest hentry,
    fun _ _ h _ hentry => closed_transactWriteRequest h hentry⟩

/-- An update that refers to one name three times. -/
theorem requests_closed_update : ∃ (t : Table) (key : Document) (updates : UpdateTree)
    (options : SetOptions) (r : Request.UpdateItem),
    (t.updateRequest key updates options).result = .ok r ∧
      r.update = "SET #attr0 = #attr0 + :val1" ∧ r.condition = some "#attr0 <> :val2" ∧
      Closed (r.update :: r.condition.toList) r.names r.values
        (Request.UpdateItem.codec.encode r) := by
  have made : (updateRequest ⟨.new "users" "id", .json, {}⟩ [("id", .string "a")]
      [("visits", .arithmetic ⟨.path (.ofName "visits"), .plus, .value (.bool true)⟩)]
      { condition := some (.field "visits" (.compareWith .ne (.bool false))) }).result =
      .ok _ := rfl
  exact ⟨_, _, _, _, _, made, by decide, by decide, (requests_closed _).2.1 _ _ _ _ made⟩

end Table

end DocumentTable
