import DocumentTable.Proofs.Closure
import DocumentTable.Store.Operations

/-!
# The partition of a query

A store reads the partition of a query out of the text of its key condition and out of what the
placeholders stand for. It reads the partition that the query was made for.

## Main definitions

* `KeyCondition.opened`: the registry of a request after its partition was placed
* `Table.QueryMade`: how the request of a query came about

## Main results

* `Store.partitionOf_text`: the partition is behind the first two placeholders of a request
* `Table.exists_of_queryRequest`: what a request says that was made for a query
* `Table.queryRequest_restart`, `Table.scanRequest_restart`: the requests for other pages

## Design notes

The text of a key condition goes on with the test of the sort key, and the store stops reading
before it. No other text may come first, since the placeholders of the partition are those that an
empty registry gives out.
-/

namespace DocumentTable

open Registry

/-! ### Key conditions -/

/-- The registry of a request after its partition was placed. -/
def KeyCondition.opened (key : KeyCondition) : Registry :=
  (Registry.empty.addName key.partitionKey).addValue key.partition

/-- The partition of a request gets the first two placeholders, since its key condition is compiled
first. -/
theorem KeyCondition.run_compile {key : KeyCondition} {clause : PlacedKeyClause} {s : Registry}
    (run : key.compile.run.run .empty = (.ok clause, s)) :
    clause.partitionKey = [.name ⟨0⟩] ∧ clause.partition = ⟨1⟩ ∧ Grows key.opened s := by
  obtain ⟨partitionKey, partition, sort⟩ := key
  cases sort with
  | none =>
      cases run
      exact ⟨rfl, rfl, .refl _⟩
  | some sort =>
      obtain ⟨sortKey, test⟩ := sort
      have rest : (do
          let sort ← (Condition.field sortKey test.toCondition).compile
          return KeyClause.mk [.name ⟨0⟩] ⟨1⟩ (some sort) : Allocation PlacedKeyClause).run.run
            (KeyCondition.opened ⟨partitionKey, partition, some (sortKey, test)⟩) =
          (.ok clause, s) := run
      obtain ⟨sort, _, compiled, rest⟩ := exists_of_run_bind rest
      cases rest
      obtain ⟨_, _, emits⟩ := Condition.emits compiled
      exact ⟨rfl, rfl, emits.placed.grows⟩

/-- The text of a key condition with the first two placeholders. -/
theorem KeyClause.text_opened (sort : Option PlacedClause) :
    (KeyClause.mk [.name ⟨0⟩] ⟨1⟩ sort : PlacedKeyClause).text =
      "#attr0 = :val1" ++ (sort.map fun sort => " and " ++ sort.text).getD "" := by
  have opened : PlacedPath.text [.name ⟨0⟩] ++ " = " ++ ValuePlaceholder.text ⟨1⟩ =
      "#attr0 = :val1" := rfl
  cases sort <;> exact congrArg (· ++ _) opened

/-- The partition is behind the first two placeholders of a request. A store finds it there without
reading the rest of the text. -/
theorem Store.partitionOf_text (sort : Option PlacedClause) (names : Dict String)
    (values : Dict Attribute) :
    partitionOf (KeyClause.mk [.name ⟨0⟩] ⟨1⟩ sort : PlacedKeyClause).text names values = do
      return (← Dict.get? names "#attr0", ← Dict.get? values ":val1") := by
  rw [KeyClause.text_opened]
  cases sort with
  | none => rfl
  | some sort =>
      have first : splitOnce? " and ".toList
          ("#attr0 = :val1" ++ (" and " ++ sort.text)).toList =
          some ("#attr0 = :val1".toList, sort.text.toList) := by
        rw [String.toList_append, String.toList_append]
        rfl
      unfold partitionOf
      rw [Option.map_some, Option.getD_some]
      dsimp only
      rw [first]
      rfl

/-! ### Requests -/

namespace Table

variable {t : Table}

theorem encodeEntries_of_mapValuesM {entries : List (String × Json)} {item : Dict Attribute}
    (encoded : Dict.mapValuesM t.marshaller.encode entries = .ok item) :
    t.encodeEntries entries = .ok (Dict.ofList item) := by
  unfold encodeEntries
  rw [encoded]
  rfl

theorem encodeEntries_single {name : String} {value : Json} {a : Attribute}
    (encodes : t.marshaller.encode value = .ok a) :
    t.encodeEntries [(name, value)] = .ok (Dict.ofList [(name, a)]) := by
  refine encodeEntries_of_mapValuesM ?_
  rw [Dict.mapValuesM, encodes]
  rfl

theorem encodeEntries_pair {name name' : String} {value value' : Json} {a b : Attribute}
    (first : t.marshaller.encode value = .ok a) (second : t.marshaller.encode value' = .ok b) :
    t.encodeEntries [(name, value), (name', value')] =
      .ok (Dict.ofList [(name, a), (name', b)]) := by
  refine encodeEntries_of_mapValuesM ?_
  rw [Dict.mapValuesM, Dict.mapValuesM, first, second]
  rfl

/-- What is found among the values of a request is what the marshaller made of a value. Keys that
are different make sure that it is the value of that key. -/
theorem get?_encodeEntries {entries : List (String × Json)} {item : Item}
    (encoded : t.encodeEntries entries = .ok item) (distinct : (entries.map Prod.fst).Nodup)
    {name : String} {value : Json} (mem : (name, value) ∈ entries) :
    ∃ a, t.marshaller.encode value = .ok a ∧ Dict.get? item name = some a := by
  obtain ⟨made, mades, encoded⟩ := exists_of_except_bind encoded
  cases encoded
  rw [except_mapError_ok_iff] at mades
  obtain ⟨a, written, found⟩ :=
    Dict.get?_mapValuesM mades ((Dict.get?_eq_some_iff distinct).2 mem)
  refine ⟨a, written, ?_⟩
  rw [Dict.get?_ofList_eq, found]
  show (Dict.keys made).Nodup
  rw [Dict.keys_mapValuesM mades]
  exact distinct

/-- How the request of a query came about: what was looked up for it, the clause of its key
condition with the registry behind it, and the registry behind all its expressions. -/
structure QueryMade (t : Table) (index : Option String) (partition : Json)
    (options : QueryOptions) (r : Request.Query) (schema : KeySchema)
    (sort : Option (String × SortTest)) (clause : PlacedKeyClause) (middle last : Registry) :
    Prop where
  isSchema : t.schema index = .ok schema
  isSort : t.sortTest schema options.sortKey = .ok sort
  starts : t.queryStart schema partition options = .ok r.exclusiveStartKey
  compiled : (KeyCondition.mk schema.partitionKey partition sort).compile.run.run .empty =
    (.ok clause, middle)
  grows : Grows middle last
  text : r.keyCondition = clause.text
  names : r.names = last.nameDict
  encoded :
    t.encodeEntries (last.values.map fun (placeholder, value) => (placeholder.text, value)) =
      .ok r.values
  isIndex : r.index = schema.index
  limit : r.limit = options.pageSize
  forward : r.forward = some !options.descending

theorem exists_queryMade {index : Option String} {partition : Json} {options : QueryOptions}
    {r : Request.Query} (made : (t.queryRequest index partition options).result = .ok r) :
    ∃ schema sort clause middle last,
      t.QueryMade index partition options r schema sort clause middle last := by
  obtain ⟨schema, isSchema, made⟩ := Traced.exists_of_result_bind made
  obtain ⟨sort, isSort, made⟩ := Traced.exists_of_result_bind made
  obtain ⟨start, starts, made⟩ := Traced.exists_of_result_bind made
  obtain ⟨⟨⟨text, filter⟩, names, values⟩, substituted, made⟩ := Traced.exists_of_result_bind made
  -- the parts come one after the other: placeholders before values, the key condition before the
  -- filter
  cases made
  obtain ⟨⟨_, last⟩, expressions, substituted⟩ := Traced.exists_of_result_bind substituted
  obtain ⟨_, substitutions, substituted⟩ := Traced.exists_of_result_bind substituted
  cases substituted
  obtain ⟨values, encoded, substitutions⟩ := exists_of_except_bind substitutions
  cases substitutions
  obtain ⟨⟨_, middle⟩, key, expressions⟩ := Traced.exists_of_result_bind expressions
  obtain ⟨⟨_, _⟩, condition, expressions⟩ := Traced.exists_of_result_bind expressions
  cases expressions
  obtain ⟨⟨clause, _⟩, compiled, key⟩ := Traced.exists_of_result_bind key
  cases key
  obtain ⟨_, _, emits⟩ := Expressions.makes_condition _ _ _ _ condition
  exact ⟨schema, sort, clause, middle, last,
    { isSchema, isSort, starts, encoded
      compiled := Expressions.run_make_ok compiled
      grows := emits.placed.grows
      text := rfl
      names := rfl
      isIndex := rfl
      limit := rfl
      forward := rfl }⟩

section QueryMade

variable {index : Option String} {partition : Json} {options : QueryOptions} {r : Request.Query}
  {schema : KeySchema} {sort : Option (String × SortTest)} {clause : PlacedKeyClause}
  {middle last : Registry}

theorem QueryMade.wellFormed
    (made : t.QueryMade index partition options r schema sort clause middle last) :
    last.WellFormed := by
  obtain ⟨_, _, emits⟩ := KeyCondition.emits made.compiled
  exact wellFormed_empty.of_grows (emits.placed.grows.trans made.grows)

/-- A placeholder of a name that the key condition may have stands for the name in the request. -/
theorem QueryMade.get?_names
    (made : t.QueryMade index partition options r schema sort clause middle last)
    {placeholder : NamePlaceholder} {name : String} (mem : (placeholder, name) ∈ middle.names) :
    Dict.get? r.names placeholder.text = some name := by
  rw [made.names]
  exact made.wellFormed.get?_nameDict.2 ⟨_, rfl, made.grows.names_prefix.subset mem⟩

/-- A placeholder of a value that the key condition may have stands for the value as it is stored in
the request. -/
theorem QueryMade.exists_get?_values
    (made : t.QueryMade index partition options r schema sort clause middle last)
    {placeholder : ValuePlaceholder} {value : Json} (mem : (placeholder, value) ∈ middle.values) :
    ∃ a, t.marshaller.encode value = .ok a ∧ Dict.get? r.values placeholder.text = some a := by
  have later := made.grows.values_prefix.subset mem
  have listed := List.mem_map_of_mem
    (f := fun entry : ValueEntry => (entry.1.text, entry.2)) later
  exact get?_encodeEntries made.encoded made.wellFormed.nodup_valueTexts listed

end QueryMade

/-- What a request says that was made for a query: where it starts, how far it goes and in which
order, and the partition that a store reads out of it. Requests are described by this from here on,
and not by how they are made. -/
theorem exists_of_queryRequest {index : Option String} {partition : Json} {options : QueryOptions}
    {r : Request.Query} (made : (t.queryRequest index partition options).result = .ok r) :
    ∃ schema value, t.schema index = .ok schema ∧
      t.queryStart schema partition options = .ok r.exclusiveStartKey ∧
      r.limit = options.pageSize ∧ r.forward = some !options.descending ∧
      t.marshaller.encode partition = .ok value ∧
      Store.partitionOf r.keyCondition r.names r.values = some (schema.partitionKey, value) := by
  obtain ⟨schema, sort, ⟨path, placeholder, rest⟩, middle, last, made⟩ := exists_queryMade made
  obtain ⟨rfl, rfl, grows⟩ := KeyCondition.run_compile made.compiled
  -- the partition was placed first, and what was given out stays
  have name : (⟨0⟩, schema.partitionKey) ∈ middle.names :=
    grows.names_prefix.subset List.mem_cons_self
  have value : (⟨1⟩, partition) ∈ middle.values :=
    grows.values_prefix.subset List.mem_cons_self
  obtain ⟨a, stored, found⟩ := made.exists_get?_values value
  refine ⟨schema, a, made.isSchema, made.starts, made.limit, made.forward, stored, ?_⟩
  rw [made.text, Store.partitionOf_text]
  show (do return (← Dict.get? r.names (NamePlaceholder.text ⟨0⟩),
    ← Dict.get? r.values (ValuePlaceholder.text ⟨1⟩))) = _
  rw [made.get?_names name, found]
  rfl

/-- A query that can be made can also be made for another page: only the size and the start of its
request change. -/
theorem queryRequest_restart {index : Option String} {partition : Json} {options : QueryOptions}
    {r : Request.Query} (made : (t.queryRequest index partition options).result = .ok r)
    (pageSize : Option UInt32) (start : Option Cursor) (fromSortKey : Option Json)
    {key : Option Item}
    (starts : ∀ schema, t.schema index = .ok schema →
      t.queryStart schema partition { options with pageSize, start, fromSortKey } = .ok key) :
    (t.queryRequest index partition { options with pageSize, start, fromSortKey }).result =
      .ok { r with limit := pageSize, exclusiveStartKey := key } := by
  obtain ⟨schema, hschema, made⟩ := Traced.exists_of_result_bind made
  obtain ⟨sort, hsort, made⟩ := Traced.exists_of_result_bind made
  obtain ⟨_, -, made⟩ := Traced.exists_of_result_bind made
  obtain ⟨⟨⟨text, filter⟩, names, values⟩, substituted, made⟩ := Traced.exists_of_result_bind made
  cases made
  exact (Traced.result_bind_of_ok hschema _).trans <| (Traced.result_bind_of_ok hsort _).trans <|
    (Traced.result_bind_of_ok (starts schema hschema) _).trans <|
      Traced.result_bind_of_ok substituted _

/-- A scan that can be made can also be made for another page. -/
theorem scanRequest_restart {index : Option String} {options : ScanOptions} {r : Request.Scan}
    (made : (t.scanRequest index options).result = .ok r) (pageSize : Option UInt32)
    (start : Option Cursor) (fromPartitionKey fromSortKey : Option Json) {key : Option Item}
    (starts : ∀ schema, t.schema index = .ok schema →
      t.scanStart schema { options with pageSize, start, fromPartitionKey, fromSortKey } =
        .ok key) :
    (t.scanRequest index { options with pageSize, start, fromPartitionKey, fromSortKey }).result =
      .ok { r with limit := pageSize, exclusiveStartKey := key } := by
  obtain ⟨schema, hschema, made⟩ := Traced.exists_of_result_bind made
  obtain ⟨_, -, made⟩ := Traced.exists_of_result_bind made
  obtain ⟨⟨filter, names, values⟩, substituted, made⟩ := Traced.exists_of_result_bind made
  cases made
  exact (Traced.result_bind_of_ok hschema _).trans <|
    (Traced.result_bind_of_ok (starts schema hschema) _).trans <|
      Traced.result_bind_of_ok substituted _

end Table

end DocumentTable
