import DocumentTable.Proofs.Resume

/-!
# Going on in an index without a cursor

A page of an index ends at a position of the index, which consists of the key attributes of the
index and of those of the table, since several items may have the same values for the key of an
index. A request that starts behind the values of a key starts at the key attributes of the index
alone. That is a position of the index only if the key of the table is among them.

## Main definitions

* `Index.keyNames`, `KeySchema.keyNames`: the names of the key attributes of an index
* `Table.StartsBehind`: where the requests start that go on in an index from the values of a key
* `Table.Locates`: a key that has all attributes of a position of an index
* `Table.HasValues`: a key whose attributes for an index are given by values

## Main results

* `Table.StartsBehind.exists_entries`: a request starts at its values, under the names of the key
  attributes of its index
* `Table.StartsBehind.exists_indexKey`: a request starts at the key attributes of its index, and
  when this is a position
* `Table.not_forall_locates`: not every request starts at a position

## Design notes

A cursor is sent as it was received and so is a position again. The values that a request may give
are those for the key of the index, so that none lead to a position of an index whose key leaves out
an attribute of the key of the table. Such a request can be made all the same.
-/

namespace DocumentTable

/-- The names of the key attributes, the partition key first. -/
def Index.keyNames (ix : Index) : List String :=
  ix.partitionKey :: ix.sortKey.toList

/-- The names of the key attributes, the partition key first. -/
def KeySchema.keyNames (schema : KeySchema) : List String :=
  schema.partitionKey :: schema.sortKey.toList

namespace Table

variable {t : Table} {ix : Index} {values : List Json} {start : Option Item}

/-- The requests for pages of an index that start behind values of its key, without a cursor: the
values, and where a request starts that can be made. -/
inductive StartsBehind (t : Table) (ix : Index) : List Json → Option Item → Prop
  | query {name : String} {partition sort : Json} {options : QueryOptions} {r : Request.Query}
      (indexed : t.index name = .ok ix)
      (made : (t.queryRequest (some name) partition (options.behindSortKey sort)).result = .ok r) :
      StartsBehind t ix [partition, sort] r.exclusiveStartKey
  | scan {name : String} {partition sort : Option Json} {options : ScanOptions} {r : Request.Scan}
      (indexed : t.index name = .ok ix) (given : partition.isSome ∨ sort.isSome)
      (made : (t.scanRequest (some name) (options.behindKey partition sort)).result = .ok r) :
      StartsBehind t ix (partition.toList ++ sort.toList) r.exclusiveStartKey

/-- A key that has the key attributes of an index and those of the table. The last key of a page of
the index is one, and stores start at no other. -/
def Locates (t : Table) (ix : Index) (key : Item) : Prop :=
  ∀ name ∈ ix.keyNames ++ t.definition.keyNames, name ∈ Dict.keys key

/-- A key whose key attributes for an index are what is stored for some values. -/
def HasValues (t : Table) (ix : Index) (key : Item) (values : List Json) : Prop :=
  List.Forall₂
    (fun name value => ∃ a, Dict.get? key name = some a ∧ t.marshaller.encode value = .ok a)
    ix.keyNames values

/-! ### Keys made of values -/

/-- Named values are stored as the names with what the values are stored as. -/
theorem exists_of_encodeEntries_zip {names : List String} {key : Item}
    (complete : names.length = values.length)
    (encoded : t.encodeEntries (names.zip values) = .ok key) :
    ∃ attributes, values.mapM t.marshaller.encode = .ok attributes ∧
      key = Dict.ofList (names.zip attributes) := by
  obtain ⟨entries, stored, encoded⟩ := exists_of_except_bind encoded
  cases encoded
  rw [except_mapError_ok_iff, Dict.mapValuesM_zip _ complete] at stored
  obtain ⟨attributes, made, stored⟩ := exists_of_except_bind stored
  cases stored
  exact ⟨attributes, made, rfl⟩

/-- The attributes of a key are what its values are stored as. -/
theorem HasValues.get?_of_mem_zip {key : Item} (hasValues : t.HasValues ix key values)
    {attributes : List Attribute} (stored : values.mapM t.marshaller.encode = .ok attributes) :
    ∀ entry ∈ ix.keyNames.zip attributes, Dict.get? key entry.1 = some entry.2 := by
  unfold HasValues at hasValues
  generalize ix.keyNames = names at hasValues ⊢
  induction hasValues generalizing attributes with
  | nil => nofun
  | cons first _ ih =>
      rw [List.mapM_cons] at stored
      obtain ⟨a, made, stored⟩ := exists_of_except_bind stored
      obtain ⟨others, mades, stored⟩ := exists_of_except_bind stored
      cases stored
      obtain ⟨a', found, made'⟩ := first
      rw [made] at made'
      cases made'
      exact List.forall_mem_cons.2 ⟨found, ih mades⟩

/-! ### Where a request starts -/

theorem schema_of_index {name : String} (indexed : t.index name = .ok ix) :
    t.schema (some name) = .ok ix.keySchema :=
  congrArg (Except.map Index.keySchema) indexed

/-- A query starts at its partition and at a value of the sort key, which the index has to have. -/
theorem exists_of_queryStart {schema : KeySchema} {partition sort : Json} {options : QueryOptions}
    (starts : t.queryStart schema partition (options.behindSortKey sort) = .ok start) :
    ∃ key, start = some key ∧ schema.keyNames.length = 2 ∧
      t.encodeEntries (schema.keyNames.zip [partition, sort]) = .ok key := by
  obtain ⟨partitionKey, sortKey, _⟩ := schema
  cases sortKey with
  | none => cases starts
  | some sortKey =>
      obtain ⟨key, encoded, starts⟩ := exists_of_except_bind starts
      cases starts
      exact ⟨key, rfl, rfl, encoded⟩

/-- A scan starts at a value for each attribute of the key. If one is given for the sort key, one
must be given for the partition. -/
theorem exists_of_scanStart {schema : KeySchema} {partition sort : Option Json}
    {options : ScanOptions} (given : partition.isSome ∨ sort.isSome)
    (starts : t.scanStart schema (options.behindKey partition sort) = .ok start) :
    ∃ key, start = some key ∧
      schema.keyNames.length = (partition.toList ++ sort.toList).length ∧
      t.encodeEntries (schema.keyNames.zip (partition.toList ++ sort.toList)) = .ok key := by
  obtain ⟨partitionKey, sortKey, _⟩ := schema
  match sortKey, partition, sort with
  | some sortKey, some partition, some sort =>
      obtain ⟨key, encoded, starts⟩ := exists_of_except_bind starts
      cases starts
      exact ⟨key, rfl, rfl, encoded⟩
  | none, some partition, none =>
      obtain ⟨key, encoded, starts⟩ := exists_of_except_bind starts
      cases starts
      exact ⟨key, rfl, rfl, encoded⟩
  | some _, none, some _ | some _, some _, none | none, some _, some _ | none, none, some _ =>
      cases starts
  | _, none, none => cases given <;> contradiction

/-- A request starts at its values, under the names of the key attributes of its index. Queries and
scans are the two cases. -/
theorem StartsBehind.exists_entries (request : t.StartsBehind ix values start) :
    ∃ key, start = some key ∧ ix.keyNames.length = values.length ∧
      t.encodeEntries (ix.keyNames.zip values) = .ok key := by
  cases request with
  | query indexed made =>
      obtain ⟨schema, _, isSchema, starts, -⟩ := exists_of_queryRequest made
      rw [schema_of_index indexed] at isSchema
      cases isSchema
      exact exists_of_queryStart starts
  | scan indexed given made =>
      obtain ⟨schema, isSchema, made⟩ := Traced.exists_of_result_bind made
      obtain ⟨start, starts, made⟩ := Traced.exists_of_result_bind made
      obtain ⟨_, -, made⟩ := Traced.exists_of_result_bind made
      cases made
      cases (schema_of_index indexed).symm.trans isSchema
      exact exists_of_scanStart given starts

/-- A request starts at the key attributes of its index, as its values are stored, whatever position
the values belong to. That is a position only if these attributes include the key of the table. The
hypothesis says that such a request was made, by a query or by a scan; how its values were found
plays no part. -/
theorem StartsBehind.exists_indexKey (request : t.StartsBehind ix values start) :
    ∃ attributes key, values.mapM t.marshaller.encode = .ok attributes ∧
      start = some key ∧ key = Dict.ofList (ix.keyNames.zip attributes) ∧
      (∀ name, name ∈ Dict.keys key ↔ name ∈ ix.keyNames) ∧
      (∀ last, t.HasValues ix last values → ∀ name,
        Dict.get? key name = if name ∈ ix.keyNames then Dict.get? last name else none) ∧
      (t.Locates ix key ↔ t.definition.keyNames ⊆ ix.keyNames) := by
  obtain ⟨key, rfl, complete, encoded⟩ := request.exists_entries
  obtain ⟨attributes, stored, rfl⟩ := exists_of_encodeEntries_zip complete encoded
  have complete' : ix.keyNames.length = attributes.length :=
    complete.trans (length_of_except_mapM stored).symm
  have names : (ix.keyNames.zip attributes).map Prod.fst = ix.keyNames :=
    List.map_fst_zip complete'.le
  have keys (name : String) :
      name ∈ Dict.keys (Dict.ofList (ix.keyNames.zip attributes)) ↔ name ∈ ix.keyNames := by
    rw [Dict.mem_keys_ofList, names]
  refine ⟨attributes, _, stored, rfl, rfl, keys, ?_, ?_⟩
  · intro last hasValues name
    rw [Dict.get?_ofList_of_forall (hasValues.get?_of_mem_zip stored), names]
  · unfold Locates
    simp only [keys, List.mem_append]
    exact ⟨fun locates _ isKey => locates _ (.inr isKey), fun covered _ => (·.elim id (covered ·))⟩

/-! ### Two indexes -/

/-- An index of the visits by what was visited. It leaves out both key attributes of the table. -/
def byPage : Index :=
  ⟨"byPage", "page", some "length", .globalIndex⟩

/-- An index of the visits by their time. Its key is that of the table, the other way round. -/
def byTime : Index :=
  ⟨"byTime", "time", some "visitor", .globalIndex⟩

/-- The visits with both indexes. -/
def indexedVisits : Table where
  definition := { visits.definition with indexes := [byPage, byTime] }

/-- A scan by time goes on at a position of the index. -/
theorem exists_indexKey_byTime : ∃ attributes key,
    indexedVisits.StartsBehind byTime [.string "noon", .string "ann"] (some key) ∧
      [Json.string "noon", .string "ann"].mapM indexedVisits.marshaller.encode = .ok attributes ∧
      key = Dict.ofList (byTime.keyNames.zip attributes) ∧ indexedVisits.Locates byTime key := by
  have made : (indexedVisits.scanRequest (some "byTime")
      (ScanOptions.behindKey {} (some (.string "noon")) (some (.string "ann")))).result =
        .ok { table := "visits", index := some "byTime",
              exclusiveStartKey := some [("time", .string "noon"), ("visitor", .string "ann")] } :=
    rfl
  have request := StartsBehind.scan rfl (.inl rfl) made
  obtain ⟨attributes, key, stored, starts, isKey, -, -, locates⟩ := request.exists_indexKey
  cases starts
  exact ⟨attributes, _, request, stored, isKey, locates.2 (by decide)⟩

/-- A query of the visits of a page starts at the key of the index, which is not a position. -/
theorem not_forall_locates : ¬ ∀ t ix values start, StartsBehind t ix values start →
    ∃ key, start = some key ∧ t.Locates ix key := by
  intro all
  have made : (indexedVisits.queryRequest (some "byPage") (.string "home")
      (QueryOptions.behindSortKey {} (.string "long"))).result =
        .ok { table := "visits", index := some "byPage", keyCondition := "#attr0 = :val1",
              names := [("#attr0", "page")], values := [(":val1", .string "home")],
              forward := some true,
              exclusiveStartKey := some [("length", .string "long"), ("page", .string "home")] } :=
    rfl
  obtain ⟨key, starts, locates⟩ := all _ byPage _ _ (.query rfl made)
  cases starts
  exact absurd (locates "visitor" (by decide)) (by decide)

end Table

end DocumentTable
