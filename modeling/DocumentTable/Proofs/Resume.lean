import DocumentTable.Proofs.StoreReads

/-!
# Going on without a cursor

A page says where it ended in two ways: by a cursor, and by the values of the key of its last item.
Whoever goes on from the values makes the same request as whoever goes on from the cursor.

## Main definitions

* `QueryOptions.behindSortKey`, `ScanOptions.behindKey`: options to go on from the values of a key

## Main results

* `Table.exists_value_of_last`: the values of a key, once read, are written as the key again
* `Table.queryRequest_behindSortKey`, `Table.scanRequest_behindKey`: the two ways to go on make the
  same request
* `Table.resumes_alike`: both ways to go on from a page of the table

## Design notes

The values have been read from the key of an item and are written again. A marshaller need not
restore all that a store may hold. So the states are restricted, to those with attributes that it
restores.
-/

namespace DocumentTable

open Exchange

/-- The options to go on behind a cursor. -/
def QueryOptions.behind (options : QueryOptions) (cursor : Cursor) : QueryOptions :=
  { options with start := some cursor }

/-- The options to go on behind a sort key, without a cursor. -/
def QueryOptions.behindSortKey (options : QueryOptions) (sort : Json) : QueryOptions :=
  { options with start := none, fromSortKey := some sort }

/-- The options to go on behind a cursor. -/
def ScanOptions.behind (options : ScanOptions) (cursor : Cursor) : ScanOptions :=
  { options with start := some cursor }

/-- The options to go on behind the values of a key, without a cursor. -/
def ScanOptions.behindKey (options : ScanOptions) (partition sort : Option Json) : ScanOptions :=
  { options with start := none, fromPartitionKey := partition, fromSortKey := sort }

/-! ### The end of a page -/

namespace Store

variable {s : Store} {items : List Item} {item : Item}

/-- The key at the end of a page is that of one of the items, the last one of the page. -/
theorem exists_of_page {page : List Item} {start : Option Item} {limit : Option UInt32}
    {key : Item} (ended : s.page items start limit = (page, some key)) :
    ∃ item ∈ items, key = s.keyOf item := by
  -- a start only leaves items out
  obtain ⟨rest, inItems, ended⟩ : ∃ rest, rest.Sublist items ∧
      s.page rest none limit = (page, some key) := by
    cases start with
    | none => exact ⟨items, .refl _, ended⟩
    | some key => exact ⟨s.after key items, s.after_sublist key items, ended⟩
  unfold Store.page at ended
  dsimp only at ended
  split at ended
  · cases ended
  · split at ended
    · obtain ⟨item, isLast, rfl⟩ := Option.map_eq_some_iff.1 (Prod.mk.inj ended).2
      exact ⟨item, inItems.subset (List.mem_of_mem_take (List.mem_of_getLast? isLast)), rfl⟩
    · cases ended

/-- Only a store without a prepared failure answers. A page that was read says so much about its
store. -/
theorem calm_of_send {op : Operation} {r : op.Request} {response : op.Response}
    (answered : (client.send op r).result s = .ok response) : s.failure = none := by
  unfold client result run at answered
  dsimp only at answered
  cases prepared : s.failure with
  | none => rfl
  | some cause =>
      rw [show (s.receive ⟨op, r⟩).failure = some cause from prepared] at answered
      cases answered

end Store

namespace Definition

variable {d : Definition}

theorem keyNames_of_some {sortKey : String} (sorts : d.sortKey = some sortKey) :
    d.keyNames = [d.partitionKey, sortKey] := by
  rw [keyNames, sorts]
  rfl

theorem keyNames_of_none (unsorted : d.sortKey = none) : d.keyNames = [d.partitionKey] := by
  rw [keyNames, unsorted]
  rfl

end Definition

namespace Table

variable {α : Type} [FromDocument α] {t : Table} {s : Store} {index : Option String}
  {partition : Json}

theorem calm_of_query {options : QueryOptions} {page : QueryPage α}
    (read : (t.query Store.client index partition options).result s = .ok page) :
    s.failure = none := by
  unfold query at read
  rw [Exchange.result_bind] at read
  obtain ⟨schema, -, read⟩ := exists_of_except_bind read
  rw [Exchange.result_bind] at read
  obtain ⟨request, -, read⟩ := exists_of_except_bind read
  rw [Exchange.result_bind, result_send] at read
  obtain ⟨response, answered, -⟩ := exists_of_except_bind read
  exact Store.calm_of_send (except_mapError_ok_iff.1 answered)

theorem calm_of_scan {options : ScanOptions} {page : ScanPage α}
    (read : (t.scan Store.client index options).result s = .ok page) : s.failure = none := by
  unfold scan at read
  rw [Exchange.result_bind] at read
  obtain ⟨schema, -, read⟩ := exists_of_except_bind read
  rw [Exchange.result_bind] at read
  obtain ⟨request, -, read⟩ := exists_of_except_bind read
  rw [Exchange.result_bind, result_send] at read
  obtain ⟨response, answered, -⟩ := exists_of_except_bind read
  exact Store.calm_of_send (except_mapError_ok_iff.1 answered)

/-! ### Keys that are read and written again -/

/-- A key attribute of an item is a value of the document of its key, and the value is written as
the attribute again. For this the marshaller has to restore the attribute, not only to read it. -/
theorem exists_key_value {item : Item} {document : Document}
    (restored : Each t.marshaller.Restores item)
    (read : t.decodeItem (s.keyOf item) = .ok document)
    {name : String} (isKey : name ∈ s.keyNames) {a : Attribute}
    (found : Dict.get? item name = some a) :
    ∃ value, Dict.get? document name = some value ∧ t.marshaller.encode value = .ok a := by
  rw [← Store.get?_keyOf item isKey] at found
  obtain ⟨value, decoded, isValue⟩ :=
    Dict.get?_mapValuesM (except_mapError_ok_iff.1 read) found
  rw [Store.get?_keyOf item isKey] at found
  obtain ⟨value', decoded', encoded⟩ := restored.get? found
  rw [decoded] at decoded'
  cases decoded'
  exact ⟨value, isValue, encoded⟩

/-- The last item of a page, whose key the page has read. It is an item of the store, and the cursor
is its key. -/
theorem exists_last_query {options : QueryOptions} {page : QueryPage α} {cursor : Cursor}
    (read : (t.query Store.client none partition options).result s = .ok page)
    (goesOn : page.next = some cursor) :
    ∃ item document value, item ∈ s.items ∧ cursor.key = s.keyOf item ∧
      t.decodeItem (s.keyOf item) = .ok document ∧
      page.lastSortKey = t.definition.sortKey.bind (Dict.get? document) ∧
      t.marshaller.encode partition = .ok value ∧
      Dict.get? item t.definition.partitionKey = some value := by
  rw [result_query (calm_of_query read)] at read
  obtain ⟨_, ⟨⟩, read⟩ := exists_of_except_bind read
  obtain ⟨r, made, read⟩ := exists_of_except_bind read
  obtain ⟨response, answered, read⟩ := exists_of_except_bind read
  obtain ⟨_, value, ⟨⟩, -, -, order, encodes, partitioned⟩ := exists_of_queryRequest made
  rw [except_mapError_ok_iff, Store.query_eq partitioned order] at answered
  cases answered
  obtain ⟨records, -, read⟩ := exists_of_except_bind read
  obtain ⟨last, isLast, read⟩ := exists_of_except_bind read
  cases read
  obtain ⟨key, ended, rfl⟩ := Option.map_eq_some_iff.1 goesOn
  obtain ⟨item, mem, rfl⟩ := Store.exists_of_page (Prod.ext rfl ended)
  obtain ⟨inStore, isValue⟩ := Store.mem_partitionItems mem
  rw [show (Store.queryResponse _).lastEvaluatedKey = _ from ended] at isLast
  obtain ⟨document, decoded, isLast⟩ := exists_of_except_bind isLast
  cases isLast
  exact ⟨item, document, value, inStore, rfl, decoded, rfl, encodes, isValue⟩

theorem exists_last_scan {options : ScanOptions} {page : ScanPage α} {cursor : Cursor}
    (read : (t.scan Store.client none options).result s = .ok page)
    (goesOn : page.next = some cursor) :
    ∃ item document, item ∈ s.items ∧ cursor.key = s.keyOf item ∧
      t.decodeItem (s.keyOf item) = .ok document ∧
      page.lastPartitionKey = Dict.get? document t.definition.partitionKey ∧
      page.lastSortKey = t.definition.sortKey.bind (Dict.get? document) := by
  rw [result_scan (calm_of_scan read)] at read
  obtain ⟨_, ⟨⟩, read⟩ := exists_of_except_bind read
  obtain ⟨r, -, read⟩ := exists_of_except_bind read
  obtain ⟨records, -, read⟩ := exists_of_except_bind read
  obtain ⟨last, isLast, read⟩ := exists_of_except_bind read
  cases read
  obtain ⟨key, ended, rfl⟩ := Option.map_eq_some_iff.1 goesOn
  obtain ⟨item, mem, rfl⟩ := Store.exists_of_page (Prod.ext rfl ended)
  rw [show (s.scan r).lastEvaluatedKey = _ from ended] at isLast
  obtain ⟨document, decoded, isLast⟩ := exists_of_except_bind isLast
  cases isLast
  exact ⟨item, document, mem, rfl, decoded, rfl, rfl⟩

/-! ### Both ways to go on -/

/-- Each item of a store has the key attributes of a table. -/
def Keyed (t : Table) (s : Store) : Prop :=
  ∀ item ∈ s.items, ∀ name ∈ t.definition.keyNames, (Dict.get? item name).isSome

variable (restored : s.Carries t.marshaller.Restores)
  (names : s.keyNames = t.definition.keyNames) (keyed : t.Keyed s)

include restored names keyed

/-- The values of the key at the end of a page are written as the attributes of the item again. -/
theorem exists_value_of_last {item : Item} {document : Document} (mem : item ∈ s.items)
    (decoded : t.decodeItem (s.keyOf item) = .ok document) (name : String)
    (isKey : name ∈ t.definition.keyNames) :
    ∃ value a, Dict.get? document name = some value ∧ t.marshaller.encode value = .ok a ∧
      Dict.get? item name = some a := by
  obtain ⟨a, found⟩ := Option.isSome_iff_exists.1 (keyed item mem name isKey)
  obtain ⟨value, isValue, encodes⟩ :=
    exists_key_value (restored item mem) decoded (names ▸ isKey) found
  exact ⟨value, a, isValue, encodes, found⟩

/-- The sort key at the end of a page of a query, together with the partition of the query, starts
where the cursor starts. The partition of the last item is that of the query, which is why it need
not be given. -/
theorem exists_queryStart {options : QueryOptions} {page : QueryPage α} {cursor : Cursor}
    (read : (t.query Store.client none partition options).result s = .ok page)
    (goesOn : page.next = some cursor) {sortKey : String}
    (sorts : t.definition.sortKey = some sortKey) :
    ∃ sort, page.lastSortKey = some sort ∧
      t.queryStart t.definition.keySchema partition (options.behindSortKey sort) =
        .ok (some cursor.key) := by
  obtain ⟨item, document, value, mem, isKey, decoded, last, encodes, found⟩ :=
    exists_last_query read goesOn
  have keys := Definition.keyNames_of_some sorts
  obtain ⟨sort, b, isSort, encodes', found'⟩ :=
    exists_value_of_last restored names keyed mem decoded sortKey (by simp [keys])
  refine ⟨sort, ?_, ?_⟩
  · rw [last, sorts]
    exact isSort
  · rw [Definition.keySchema, sorts]
    show (t.encodeEntries [(t.definition.partitionKey, partition), (sortKey, sort)] >>= _) = _
    rw [encodeEntries_pair encodes encodes', isKey,
      Store.keyOf_pair (names.trans keys) found found']
    rfl

/-- The values of the key at the end of a page of a scan start where the cursor starts. A scan has
no partition of its own, so both values are given. -/
theorem scanStart_behindKey {options : ScanOptions} {page : ScanPage α} {cursor : Cursor}
    (read : (t.scan Store.client none options).result s = .ok page)
    (goesOn : page.next = some cursor) :
    t.scanStart t.definition.keySchema
        (options.behindKey page.lastPartitionKey page.lastSortKey) = .ok (some cursor.key) := by
  obtain ⟨item, document, mem, isKey, decoded, last, last'⟩ := exists_last_scan read goesOn
  have values := exists_value_of_last restored names keyed mem decoded
  obtain ⟨value, a, isValue, encodes, found⟩ := values t.definition.partitionKey List.mem_cons_self
  rw [last, last', isValue, Definition.keySchema]
  -- the key of an item has one attribute or two
  cases sorts : t.definition.sortKey with
  | none =>
      show (t.encodeEntries [(t.definition.partitionKey, value)] >>= _) = _
      rw [encodeEntries_single encodes, isKey,
        Store.keyOf_single (names.trans (Definition.keyNames_of_none sorts)) found]
      rfl
  | some sortKey =>
      have keys := Definition.keyNames_of_some sorts
      obtain ⟨sort, b, isSort, encodes', found'⟩ := values sortKey (by simp [keys])
      rw [Option.bind_some, isSort]
      show (t.encodeEntries [(t.definition.partitionKey, value), (sortKey, sort)] >>= _) = _
      rw [encodeEntries_pair encodes encodes', isKey,
        Store.keyOf_pair (names.trans keys) found found']
      rfl

omit restored names keyed

/-- A query that starts at the same place is the same request, as the place is all in which the two
differ. -/
theorem queryRequest_behindSortKey {options : QueryOptions} {sort : Json} {cursor : Cursor}
    (starts : t.queryStart t.definition.keySchema partition (options.behindSortKey sort) =
      .ok (some cursor.key)) :
    t.queryRequest none partition (options.behindSortKey sort) =
      t.queryRequest none partition (options.behind cursor) := by
  unfold queryRequest
  show (liftM (t.sortTest t.definition.keySchema options.sortKey) >>= fun _ =>
    liftM (t.queryStart t.definition.keySchema partition (options.behindSortKey sort)) >>= _) = _
  rw [starts]
  rfl

/-- A scan that starts at the same place is the same request, as the place is all in which the two
differ. -/
theorem scanRequest_behindKey {options : ScanOptions} {last last' : Option Json} {cursor : Cursor}
    (starts : t.scanStart t.definition.keySchema (options.behindKey last last') =
      .ok (some cursor.key)) :
    t.scanRequest none (options.behindKey last last') =
      t.scanRequest none (options.behind cursor) := by
  unfold scanRequest
  show (liftM (t.scanStart t.definition.keySchema (options.behindKey last last')) >>= _) = _
  rw [starts]
  rfl

/-- Whoever goes on from a page of the table by the values of its last key makes the request that
goes on from the cursor, which starts at the key of the cursor, and so reads the same page. This
holds in every state in which items have their key attributes and which calls lead to that write
what the table restores. The default marshaller and the one without floats restore what they write,
so that their own calls count. Items that came from elsewhere might hold keys that are written in
another way, and would then be another place. -/
theorem resumes_alike : Marshaller.json.Faithful ∧ Marshaller.withoutFloats.Faithful ∧
    ∀ (t : Table) (s : Store),
      s.Reached t.marshaller.Restores t.definition.partitionKey t.definition.sortKey →
      t.Keyed s →
      ∀ (α : Type) [FromDocument α] (cursor : Cursor),
        (∀ partition options (page : QueryPage α),
          (t.query Store.client none partition options).result s = .ok page →
          page.next = some cursor → t.definition.sortKey.isSome →
          ∃ sort r, page.lastSortKey = some sort ∧
            (t.queryRequest none partition (options.behindSortKey sort)).result = .ok r ∧
            (t.queryRequest none partition (options.behind cursor)).result = .ok r ∧
            r.exclusiveStartKey = some cursor.key ∧
            t.query (α := α) Store.client none partition (options.behindSortKey sort) =
              t.query Store.client none partition (options.behind cursor)) ∧
        ∀ options (page : ScanPage α),
          (t.scan Store.client none options).result s = .ok page →
          page.next = some cursor →
          ∃ r,
            (t.scanRequest none
              (options.behindKey page.lastPartitionKey page.lastSortKey)).result = .ok r ∧
            (t.scanRequest none (options.behind cursor)).result = .ok r ∧
            r.exclusiveStartKey = some cursor.key ∧
            t.scan (α := α) Store.client none
                (options.behindKey page.lastPartitionKey page.lastSortKey) =
              t.scan Store.client none (options.behind cursor) := by
  refine ⟨Marshaller.faithful_json, Marshaller.faithful_withoutFloats, ?_⟩
  intro t s reached keyed α _ cursor
  refine ⟨fun partition options page read goesOn sorted => ?_, fun options page read goesOn => ?_⟩
  · obtain ⟨sortKey, sorts⟩ := Option.isSome_iff_exists.1 sorted
    obtain ⟨r, made⟩ := exists_request_of_query (calm_of_query read) read
    -- the page ends at an item, whose sort key is restored and is marshalled again to the same
    -- attribute
    obtain ⟨sort, last, starts⟩ :=
      exists_queryStart reached.carries reached.keyNames_eq keyed read goesOn sorts
    have same := queryRequest_behindSortKey starts
    have resumed : (t.queryRequest none partition (options.behindSortKey sort)).result = .ok _ :=
      queryRequest_restart made options.pageSize none (some sort) (by
        rintro _ ⟨⟩
        exact starts)
    refine ⟨sort, _, last, resumed, same ▸ resumed, rfl, ?_⟩
    unfold query
    rw [same]
  · obtain ⟨r, made⟩ := exists_request_of_scan (calm_of_scan read) read
    have starts :=
      scanStart_behindKey reached.carries reached.keyNames_eq keyed read goesOn
    have same := scanRequest_behindKey starts
    have resumed : (t.scanRequest none
        (options.behindKey page.lastPartitionKey page.lastSortKey)).result = .ok _ :=
      scanRequest_restart made options.pageSize none page.lastPartitionKey page.lastSortKey (by
        rintro _ ⟨⟩
        exact starts)
    refine ⟨_, resumed, same ▸ resumed, rfl, ?_⟩
    unfold scan
    rw [same]

/-- Two of three visits, and what starts behind the second one. -/
theorem resumes_alike_two : ∃ (page : QueryPage Json) (cursor : Cursor) (sort : Json)
    (r : Request.Query),
    Store.threeVisits.Reached visits.marshaller.Restores visits.definition.partitionKey
        visits.definition.sortKey ∧
      visits.Keyed Store.threeVisits ∧ visits.definition.sortKey.isSome ∧
      (visits.query Store.client none (.string "ann") { pageSize := some 2 }).result
        Store.threeVisits = .ok page ∧
      page.next = some cursor ∧ page.lastSortKey = some sort ∧
      (visits.queryRequest none (.string "ann")
        (QueryOptions.behindSortKey { pageSize := some 2 } sort)).result = .ok r ∧
      r.exclusiveStartKey = some cursor.key := by
  have keyed : visits.Keyed Store.threeVisits := by
    unfold Keyed
    decide
  have read : (visits.query Store.client none (.string "ann") { pageSize := some 2 }).result
      Store.threeVisits =
        .ok ⟨[visit (.bool true), visit .null], some .null,
          some ⟨[("time", .null true), ("visitor", .string "ann")]⟩⟩ := rfl
  obtain ⟨faithful, -, resumes⟩ := resumes_alike
  have reached := Store.reached_threeVisits.mono faithful
  obtain ⟨sort, r, last, made, -, starts, -⟩ :=
    (resumes visits _ reached keyed Json _).1 _ _ _ read rfl rfl
  exact ⟨_, _, sort, r, reached, keyed, rfl, read, rfl, last, made, starts⟩

end Table

end DocumentTable
