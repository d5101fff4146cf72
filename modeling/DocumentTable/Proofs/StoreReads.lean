import DocumentTable.Proofs.Partition
import DocumentTable.Proofs.Reached

/-!
# Pages that a store returns

A query and a scan are requests to the store between computations that build the request and read
the response. The store answers from its items and keeps them.

## Main definitions

* `Store.partitionItems`: the items of a partition in the order of a query
* `Table.queryPage`, `Table.scanPage`: the page that a response is read as
* `Store.SameContents`: stores that differ in the requests received only

## Main results

* `Table.result_query`, `Table.result_scan`: a query and a scan without their exchange
* `Table.keeps_query_sameContents`, `Table.keeps_scan_sameContents`: reading changes no contents
-/

namespace DocumentTable

open Exchange

/-! ### Answers of the store -/

namespace Store

/-- The items of a partition in the order of a query. -/
def partitionItems (s : Store) (name : String) (value : Attribute) (descending : Bool) :
    List Item :=
  let items := s.items.filter fun item => Dict.get? item name == some value
  if descending then items.reverse else items

theorem mem_partitionItems {s : Store} {name : String} {value : Attribute} {descending : Bool}
    {item : Item} (mem : item ∈ s.partitionItems name value descending) :
    item ∈ s.items ∧ Dict.get? item name = some value := by
  have filtered : item ∈ s.items.filter fun item => Dict.get? item name == some value := by
    cases descending with
    | false => exact mem
    | true => exact List.mem_reverse.1 mem
  obtain ⟨mem, same⟩ := List.mem_filter.1 filtered
  exact ⟨mem, eq_of_beq same⟩

/-- The items of a partition have different keys, so that a position among them is one item. -/
theorem Distinct.partitionItems {s : Store} (distinct : s.Distinct) (name : String)
    (value : Attribute) (descending : Bool) :
    ((s.partitionItems name value descending).map s.keyValues).Nodup := by
  have filtered := distinct.sublist
    ((s.items.filter_sublist (p := fun item => Dict.get? item name == some value)).map s.keyValues)
  cases descending with
  | false => exact filtered
  | true => exact (((List.reverse_perm _).map s.keyValues).nodup_iff).2 filtered

theorem after_sublist (s : Store) (key : Item) (items : List Item) :
    (s.after key items).Sublist items := by
  unfold after
  split
  · exact (List.drop_sublist _ _).trans (List.dropWhile_sublist _)
  · exact .refl _

/-- A page leaves items out, and no more: what it has stands in the order of the items. -/
theorem page_sublist (s : Store) (items : List Item) (start : Option Item)
    (limit : Option UInt32) : (s.page items start limit).1.Sublist items := by
  have limited (items : List Item) : (s.page items none limit).1.Sublist items := by
    unfold page
    dsimp only
    split
    · exact .refl _
    · split
      · exact List.take_sublist _ _
      · exact .refl _
  cases start with
  | none => exact limited items
  | some key => exact (limited (s.after key items)).trans (s.after_sublist key items)

/-- The response that a page of a query is sent in. -/
def queryResponse (page : List Item × Option Item) : Response.Query where
  items := page.1
  count := countOf page.1
  scannedCount := countOf page.1
  lastEvaluatedKey := page.2

/-- A query reads a page of its partition, in the order that it asks for. The partition is what its
key condition says with the placeholders resolved. -/
theorem query_eq_of_partition {s : Store} {r : Request.Query} {name : String} {value : Attribute}
    (partition : partitionOf r.keyCondition r.names r.values = some (name, value)) :
    s.query r = .ok (queryResponse
      (s.page (s.partitionItems name value (r.forward = some false)) r.exclusiveStartKey
        r.limit)) := by
  unfold query partitionItems
  simp only [partition, decide_eq_true_eq]
  rfl

/-- A query reads a page of its partition. Its order is said by a flag, which a table always sets.
-/
theorem query_eq {s : Store} {r : Request.Query} {name : String} {value : Attribute}
    {descending : Bool}
    (partition : partitionOf r.keyCondition r.names r.values = some (name, value))
    (order : r.forward = some !descending) :
    s.query r = .ok (queryResponse
      (s.page (s.partitionItems name value descending) r.exclusiveStartKey r.limit)) := by
  rw [query_eq_of_partition partition, order]
  cases descending <;> rfl

/-- The response that a page of a scan is sent in. -/
def scanResponse (page : List Item × Option Item) : Response.Scan where
  items := page.1
  count := countOf page.1
  scannedCount := countOf page.1
  lastEvaluatedKey := page.2

/-- Stores that differ in the requests received only. -/
def SameContents (s s' : Store) : Prop :=
  ∃ received, s' = { s with received }

theorem SameContents.refl (s : Store) : s.SameContents s :=
  ⟨s.received, rfl⟩

variable {s : Store}

/-- A request is answered by what the store does with it, unless a failure was prepared. -/
theorem result_send (calm : s.failure = none) (op : Operation) (r : op.Request) :
    (client.send op r).result s = ((s.receive ⟨op, r⟩).handle op r).map Prod.fst := by
  unfold client result run
  dsimp only
  rw [show (s.receive ⟨op, r⟩).failure = none from calm]
  dsimp only
  cases (s.receive ⟨op, r⟩).handle op r <;> rfl

theorem result_send_query (calm : s.failure = none) (r : Request.Query) :
    (client.send .query r).result s = s.query r := by
  rw [result_send calm]
  show ((s.query r >>= fun response => .ok (response, s.receive ⟨.query, r⟩)).map Prod.fst) = _
  cases s.query r <;> rfl

/-- A request that asks for no writes changes nothing but the list of requests. This is what reads
have in common. -/
theorem after_send (calm : s.failure = none) {op : Operation} {r : op.Request}
    (reads : ∀ capacity, writesOf capacity op r = []) :
    (client.send op r).after s = s.receive ⟨op, r⟩ := by
  unfold client Exchange.after run
  dsimp only
  rw [show (s.receive ⟨op, r⟩).failure = none from calm]
  dsimp only
  split
  · next response s' succeeds => rw [handle_eq_foldl succeeds, reads, List.foldl_nil]
  · rfl

theorem keeps_sameContents (calm : s.failure = none) {op : Operation} {r : op.Request}
    (reads : ∀ capacity, writesOf capacity op r = []) :
    (client.send op r).Keeps s.SameContents := by
  rintro _ ⟨received, rfl⟩
  rw [after_send (s := { s with received }) calm reads]
  exact ⟨received ++ [⟨op, r⟩], rfl⟩

end Store

/-! ### Pages -/

namespace Table

variable {α : Type} [FromDocument α] {t : Table} {s : Store} {index : Option String}
  {partition : Json}

/-- The page that the response to a query is read as. -/
def queryPage (t : Table) (schema : KeySchema) (response : Response.Query) :
    Except TableError (QueryPage α) := do
  let records ← t.decodeAll response.items
  let last ← t.lastOf response.lastEvaluatedKey
  return {
    records
    lastSortKey := do Dict.get? (← last) (← schema.sortKey)
    next := response.lastEvaluatedKey.map Cursor.mk }

/-- The page that the response to a scan is read as. -/
def scanPage (t : Table) (schema : KeySchema) (response : Response.Scan) :
    Except TableError (ScanPage α) := do
  let records ← t.decodeAll response.items
  let last ← t.lastOf response.lastEvaluatedKey
  return {
    records
    lastPartitionKey := do Dict.get? (← last) schema.partitionKey
    lastSortKey := do Dict.get? (← last) (← schema.sortKey)
    next := response.lastEvaluatedKey.map Cursor.mk }

/-- A query without its exchange: the request is made, the store is read, and the page is decoded.
-/
theorem result_query (calm : s.failure = none) (options : QueryOptions) :
    (t.query (α := α) Store.client index partition options).result s =
      (do
        let schema ← t.schema index
        let request ← (t.queryRequest index partition options).result
        let response ← (s.query request).mapError .service
        t.queryPage schema response) := by
  unfold query
  rw [Exchange.result_bind]
  refine congrArg _ (funext fun schema => ?_)
  rw [Exchange.result_bind]
  refine congrArg _ (funext fun request => ?_)
  rw [Exchange.result_bind]
  show (t.send Store.client .query request).result s >>= _ = _
  rw [result_send, Store.result_send_query calm]
  refine congrArg _ (funext fun response => ?_)
  rw [Exchange.result_bind]
  refine congrArg _ (funext fun records => ?_)
  rw [Exchange.result_bind]
  rfl

/-- A scan without its exchange: the request is made, the store is read, and the page is decoded. -/
theorem result_scan (calm : s.failure = none) (options : ScanOptions) :
    (t.scan (α := α) Store.client index options).result s =
      (do
        let schema ← t.schema index
        let request ← (t.scanRequest index options).result
        t.scanPage schema (s.scan request)) := by
  unfold scan
  rw [Exchange.result_bind]
  refine congrArg _ (funext fun schema => ?_)
  rw [Exchange.result_bind]
  refine congrArg _ (funext fun request => ?_)
  rw [Exchange.result_bind]
  show (t.send Store.client .scan request).result s >>= _ = _
  rw [result_send, Store.result_send calm]
  show (Except.ok (s.scan request) >>= _) = t.scanPage schema (s.scan request)
  show Exchange.result (_ >>= _) _ = _
  rw [Exchange.result_bind]
  refine congrArg _ (funext fun records => ?_)
  rw [Exchange.result_bind]
  rfl

/-- The request of a query that succeeds can be made, as it would have failed before it was sent. -/
theorem exists_request_of_query (calm : s.failure = none) {options : QueryOptions}
    {page : QueryPage α}
    (read : (t.query Store.client index partition options).result s = .ok page) :
    ∃ r, (t.queryRequest index partition options).result = .ok r := by
  rw [result_query calm] at read
  obtain ⟨_, -, read⟩ := exists_of_except_bind read
  obtain ⟨r, made, -⟩ := exists_of_except_bind read
  exact ⟨r, made⟩

/-- The request of a scan that succeeds can be made, as it would have failed before it was sent. -/
theorem exists_request_of_scan (calm : s.failure = none) {options : ScanOptions}
    {page : ScanPage α} (read : (t.scan Store.client index options).result s = .ok page) :
    ∃ r, (t.scanRequest index options).result = .ok r := by
  rw [result_scan calm] at read
  obtain ⟨_, -, read⟩ := exists_of_except_bind read
  obtain ⟨r, made, -⟩ := exists_of_except_bind read
  exact ⟨r, made⟩

/-- A query changes no contents, so that the next page is read from the same items. -/
theorem keeps_query_sameContents (calm : s.failure = none) (options : QueryOptions) :
    (t.query (α := α) Store.client index partition options).Keeps s.SameContents :=
  keeps_query fun _ _ => Store.keeps_sameContents calm fun _ => rfl

/-- A scan changes no contents, so that the next page is read from the same items. -/
theorem keeps_scan_sameContents (calm : s.failure = none) (options : ScanOptions) :
    (t.scan (α := α) Store.client index options).Keeps s.SameContents :=
  keeps_scan fun _ _ => Store.keeps_sameContents calm fun _ => rfl

/-! ### Records -/

/-- A table reads pages: those whose items are records, and whose key is a document. -/
structure ReadsPages (t : Table) {π : Type} (read : List Item × Option Item → Except TableError π)
    (records : π → List α) (next : π → Option Cursor) : Prop where
  exists_page : ∀ (items : List Item) (key : Option Item) {decoded : List α},
    t.decodeAll items = .ok decoded → (∀ k ∈ key, ∃ document, t.decodeItem k = .ok document) →
    ∃ page, read (items, key) = .ok page ∧ records page = decoded ∧ next page = key.map Cursor.mk
  decodeAll_eq : ∀ {items : List Item} {key : Option Item} {page : π},
    read (items, key) = .ok page → t.decodeAll items = .ok (records page)

theorem exists_lastOf {key : Option Item}
    (decodes : ∀ k ∈ key, ∃ document, t.decodeItem k = .ok document) :
    ∃ last, t.lastOf key = .ok last := by
  cases key with
  | none => exact ⟨none, rfl⟩
  | some k =>
      obtain ⟨document, decoded⟩ := decodes k rfl
      refine ⟨some document, ?_⟩
      rw [lastOf, decoded]
      rfl

theorem readsPages_query (t : Table) (schema : KeySchema) :
    t.ReadsPages (fun page => t.queryPage (α := α) schema (Store.queryResponse page))
      QueryPage.records QueryPage.next where
  exists_page items key decoded isDecoded decodes := by
    obtain ⟨last, isLast⟩ := exists_lastOf decodes
    refine ⟨⟨decoded, do Dict.get? (← last) (← schema.sortKey), key.map Cursor.mk⟩, ?_, rfl, rfl⟩
    show (t.decodeAll items >>= fun records => t.lastOf key >>= fun last => _) = _
    rw [isDecoded, isLast]
    rfl
  decodeAll_eq read := by
    obtain ⟨records, decoded, read⟩ := exists_of_except_bind read
    obtain ⟨last, -, read⟩ := exists_of_except_bind read
    cases read
    exact decoded

theorem readsPages_scan (t : Table) (schema : KeySchema) :
    t.ReadsPages (fun page => t.scanPage (α := α) schema (Store.scanResponse page))
      ScanPage.records ScanPage.next where
  exists_page items key decoded isDecoded decodes := by
    obtain ⟨last, isLast⟩ := exists_lastOf decodes
    refine ⟨⟨decoded, do Dict.get? (← last) schema.partitionKey,
      do Dict.get? (← last) (← schema.sortKey), key.map Cursor.mk⟩, ?_, rfl, rfl⟩
    show (t.decodeAll items >>= fun records => t.lastOf key >>= fun last => _) = _
    rw [isDecoded, isLast]
    rfl
  decodeAll_eq read := by
    obtain ⟨records, decoded, read⟩ := exists_of_except_bind read
    obtain ⟨last, -, read⟩ := exists_of_except_bind read
    cases read
    exact decoded

theorem exists_decodeItem_iff {item : Item} :
    (∃ document, t.decodeItem item = .ok document) ↔
      Each t.marshaller.Reads item := by
  unfold decodeItem
  simp only [except_mapError_ok_iff]
  exact Dict.exists_mapValuesM_iff

/-- The key of a record is a document, since all of its attributes have been decoded with the
record. -/
theorem exists_decodeItem_keyOf {item : Item} {decoded : α}
    (isDecoded : t.decode item = .ok decoded) (s : Store) :
    ∃ document, t.decodeItem (s.keyOf item) = .ok document := by
  obtain ⟨document, isDocument, -⟩ := exists_of_except_bind isDecoded
  have each := exists_decodeItem_iff.1 ⟨document, isDocument⟩
  exact exists_decodeItem_iff.2 fun entry mem => each entry (Store.mem_of_mem_keyOf mem)

end Table

end DocumentTable
