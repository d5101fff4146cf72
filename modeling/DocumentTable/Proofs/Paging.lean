import DocumentTable.Proofs.StoreReads

/-!
# Paging

Whoever starts without a cursor and goes on from the cursor of each page reads everything once: the
pages are full but for the last one, and their records joined are those of the read without a page
size.

## Main definitions

* `QueryOptions.page`, `ScanOptions.page`: the options for a page of some size behind a cursor
* `Pages`: the pages of a loop that follows the cursors to the end
* `Tiles`: pages of a size that cover a list without gaps and without overlaps
* `Store.Behind`: the items that a cursor has behind it

## Main results

* `exists_pages`: a loop ends and its pages tile what was left at its start
* `Store.page_behind`: behind a cursor a page goes on where the page of the cursor ended
* `Table.ReadsPages.exists_turn`: one turn takes a page of what is left
* `Table.pages_tile`: the pages of a query and of a scan
-/

namespace DocumentTable

/-- The options for a page of some size behind a cursor. -/
def QueryOptions.page (options : QueryOptions) (pageSize : Option UInt32)
    (start : Option Cursor) : QueryOptions :=
  { options with pageSize, start, fromSortKey := none }

/-- The options for a page of some size behind a cursor. -/
def ScanOptions.page (options : ScanOptions) (pageSize : Option UInt32)
    (start : Option Cursor) : ScanOptions :=
  { options with pageSize, start, fromPartitionKey := none, fromSortKey := none }

/-! ### Loops over pages -/

section Pages

variable {σ ε π β : Type}

/-- The pages of a loop that starts at a cursor, or at the beginning, and follows the cursors to the
end. -/
inductive Pages (turn : Option Cursor → Exchange σ ε π) (next : π → Option Cursor) :
    Option Cursor → σ → List π → Prop
  | last {start : Option Cursor} {s : σ} {page : π} (read : (turn start).result s = .ok page)
      (stops : next page = none) : Pages turn next start s [page]
  | more {start : Option Cursor} {s : σ} {page : π} {cursor : Cursor} {pages : List π}
      (read : (turn start).result s = .ok page) (goesOn : next page = some cursor)
      (rest : Pages turn next (some cursor) ((turn start).after s) pages) :
      Pages turn next start s (page :: pages)

/-- Pages of a size that cover a list without gaps and without overlaps. -/
structure Tiles (records : π → List β) (next : π → Option Cursor) (size : Nat) (pages : List π)
    (whole : List β) : Prop where
  /-- All pages but the last one are full and have a cursor. -/
  full : ∀ page ∈ pages.dropLast, (records page).length = size ∧ (next page).isSome
  /-- There is a last page, which has no cursor. -/
  last : ∃ page, pages.getLast? = some page ∧ (records page).length ≤ size ∧ next page = none
  whole_eq : pages.flatMap records = whole

variable {records : π → List β} {next : π → Option Cursor} {size : Nat}

theorem Tiles.single {page : π} (small : (records page).length ≤ size)
    (stops : next page = none) : Tiles records next size [page] (records page) :=
  ⟨nofun, ⟨page, rfl, small, stops⟩, List.flatMap_singleton _ _⟩

/-- A full page in front of pages that tile the rest makes pages that tile all. -/
theorem Tiles.cons {page : π} {pages : List π} {rest : List β}
    (full : (records page).length = size) (goesOn : (next page).isSome)
    (tiles : Tiles records next size pages rest) :
    Tiles records next size (page :: pages) (records page ++ rest) := by
  obtain ⟨others, ⟨last, isLast, small, stops⟩, rfl⟩ := tiles
  have ne : pages ≠ [] := by
    rintro rfl
    cases isLast
  refine ⟨?_, ⟨last, ?_, small, stops⟩, List.flatMap_cons⟩
  · rw [List.dropLast_cons_of_ne_nil ne, List.forall_mem_cons]
    exact ⟨⟨full, goesOn⟩, others⟩
  · rw [List.getLast?_cons, isLast]
    rfl

/-- A loop ends, and its pages tile what was left at its start, when each turn takes a page of what
is left and has a cursor exactly when something remains. The induction is on the number of records
left, which a turn makes smaller since the size is positive. -/
theorem exists_pages {turn : Option Cursor → Exchange σ ε π} {P : σ → Prop}
    {L : Option Cursor → List β → Prop} (pos : 0 < size)
    (turns : ∀ start left s, L start left → P s → ∃ page,
      (turn start).result s = .ok page ∧ P ((turn start).after s) ∧
      records page = left.take size ∧
      (left.length ≤ size → next page = none) ∧
      (size < left.length → ∃ cursor, next page = some cursor ∧
        L (some cursor) (left.drop size)))
    {start : Option Cursor} {left : List β} {s : σ} (isLeft : L start left) (holds : P s) :
    ∃ pages, Pages turn next start s pages ∧ Tiles records next size pages left := by
  -- what is left gets shorter with each turn
  induction length : left.length using Nat.strongRecOn generalizing start left s with
  | ind k ih =>
      subst length
      obtain ⟨page, read, kept, taken, stops, goesOn⟩ := turns start left s isLeft holds
      by_cases small : left.length ≤ size
      · rw [List.take_of_length_le small] at taken
        refine ⟨[page], .last read (stops small), ?_⟩
        rw [← taken]
        exact .single (taken ▸ small) (stops small)
      · rw [Nat.not_le] at small
        obtain ⟨cursor, isNext, isLeft⟩ := goesOn small
        have shorter : (left.drop size).length < left.length := by
          rw [List.length_drop]
          omega
        obtain ⟨pages, reads, tiles⟩ := ih _ shorter isLeft kept rfl
        refine ⟨page :: pages, .more read isNext reads, ?_⟩
        rw [← List.take_append_drop size left, ← taken]
        refine tiles.cons ?_ ?_
        · rw [taken, List.length_take, Nat.min_eq_left small.le]
        · rw [isNext]
          rfl

end Pages

/-! ### Pages of a store -/

namespace Store

variable {s : Store}

/-- What a cursor has behind it: nothing before the first page, and else the items up to the one
whose key it is. -/
inductive Behind (s : Store) : Option Cursor → List Item → Prop
  | beginning : Behind s none []
  | item (before : List Item) (item : Item) : Behind s (some ⟨s.keyOf item⟩) (before ++ [item])

/-- Behind a cursor a page goes on where the page of the cursor ended. The keys are different, so
that the cursor is one position. -/
theorem page_behind {start : Option Cursor} {before left : List Item}
    (behind : s.Behind start before)
    (distinct : ((before ++ left).map s.keyValues).Nodup) (limit : Option UInt32) :
    s.page (before ++ left) (start.map Cursor.key) limit = s.page left none limit := by
  cases behind with
  | beginning => rfl
  | item before item =>
      rw [List.append_assoc, List.singleton_append] at distinct ⊢
      unfold page
      dsimp only [Option.map_some]
      rw [after_keyOf distinct]

/-- A page that is not the last one ends with the item of its cursor, and has as many items as were
asked for. -/
theorem page_limit_lt {items : List Item} {n : UInt32} (pos : 0 < n)
    (more : n.toNat < items.length) :
    ∃ before item, items.take n.toNat = before ++ [item] ∧
      s.page items none (some n) = (items.take n.toNat, some (s.keyOf item)) := by
  have ne : items.take n.toNat ≠ [] := by
    intro empty
    have length := congrArg List.length empty
    rw [List.length_take, Nat.min_eq_left more.le] at length
    exact absurd length (Nat.pos_iff_ne_zero.1 (UInt32.lt_iff_toNat_lt.1 pos))
  refine ⟨(items.take n.toNat).dropLast, (items.take n.toNat).getLast ne,
    (List.dropLast_append_getLast ne).symm, ?_⟩
  unfold page
  dsimp only
  rw [if_pos more, List.getLast?_eq_some_getLast ne]
  rfl

/-- A page that has room for all items has them all, and no cursor. -/
theorem page_limit_le {items : List Item} {n : UInt32} (few : items.length ≤ n.toNat) :
    s.page items none (some n) = (items, none) := by
  unfold page
  dsimp only
  rw [if_neg (Nat.not_lt.2 few)]

end Store

namespace Table

open Exchange

variable {α : Type} [FromDocument α] {t : Table} {s : Store} {index : Option String}
  {partition : Json}

/-- What is left behind a cursor: the records of the items behind it. -/
def Left (t : Table) (s : Store) (items : List Item) (start : Option Cursor) (left : List α) :
    Prop :=
  ∃ before rest, items = before ++ rest ∧ s.Behind start before ∧ t.decodeAll rest = .ok left

/-- One turn of a loop takes a page of what is left, and its cursor leaves the others. -/
theorem ReadsPages.exists_turn {π : Type} {read : List Item × Option Item → Except TableError π}
    {records : π → List α} {next : π → Option Cursor} (reads : t.ReadsPages read records next)
    {items : List Item} {n : UInt32} (pos : 0 < n) (distinct : (items.map s.keyValues).Nodup)
    {start : Option Cursor} {left : List α} (isLeft : t.Left s items start left) :
    ∃ page, read (s.page items (start.map Cursor.key) (some n)) = .ok page ∧
      records page = left.take n.toNat ∧
      (left.length ≤ n.toNat → next page = none) ∧
      (n.toNat < left.length → ∃ cursor, next page = some cursor ∧
        t.Left s items (some cursor) (left.drop n.toNat)) := by
  obtain ⟨before, rest, rfl, behind, isDecoded⟩ := isLeft
  have length : left.length = rest.length := length_of_except_mapM isDecoded
  rw [Store.page_behind behind distinct, length]
  -- the last page is all that is left, and every other page ends with the item of its cursor
  by_cases few : rest.length ≤ n.toNat
  · obtain ⟨page, isRead, rfl, stops⟩ := reads.exists_page _ none isDecoded nofun
    refine ⟨page, ?_, ?_, fun _ => stops, fun more => absurd few (Nat.not_le.2 more)⟩
    · rw [Store.page_limit_le few, isRead]
    · rw [List.take_of_length_le (length ▸ few)]
  · rw [Nat.not_le] at few
    obtain ⟨init, item, taken, paged⟩ := Store.page_limit_lt (s := s) pos few
    have last : item ∈ rest := by
      refine List.mem_of_mem_take (i := n.toNat) ?_
      rw [taken]
      exact List.mem_append_right _ (List.mem_singleton_self item)
    obtain ⟨b, decodes⟩ := exists_except_mapM_iff.1 ⟨left, isDecoded⟩ item last
    obtain ⟨page, isRead, isTaken, goesOn⟩ :=
      reads.exists_page _ (some (s.keyOf item)) (except_mapM_take isDecoded n.toNat) <| by
        rintro _ ⟨⟩
        exact exists_decodeItem_keyOf decodes s
    refine ⟨page, ?_, isTaken, fun small => absurd small (Nat.not_le.2 few), fun _ => ?_⟩
    · rw [paged, isRead]
    · refine ⟨_, goesOn, before ++ init ++ [item], rest.drop n.toNat, ?_,
        .item (before ++ init) item, except_mapM_drop isDecoded n.toNat⟩
      rw [List.append_assoc before, ← taken, List.append_assoc, List.take_append_drop]

/-- A loop over the pages of a list of records with different keys ends, and its pages tile the
list. Queries and scans differ in where the list comes from. -/
theorem exists_pages_of_items {π : Type} {read : List Item × Option Item → Except TableError π}
    {records : π → List α} {next : π → Option Cursor} (reads : t.ReadsPages read records next)
    {turn : Option Cursor → Exchange Store TableError π} {items : List Item} {n : UInt32}
    (answers : ∀ start s', s.SameContents s' →
      (turn start).result s' = read (s.page items (start.map Cursor.key) (some n)))
    (keeps : ∀ start, (turn start).Keeps s.SameContents) (pos : 0 < n)
    (distinct : (items.map s.keyValues).Nodup) {decoded : List α}
    (isDecoded : t.decodeAll items = .ok decoded) :
    ∃ pages, Pages turn next none s pages ∧ Tiles records next n.toNat pages decoded := by
  refine exists_pages (P := s.SameContents) (L := t.Left s items) (UInt32.lt_iff_toNat_lt.1 pos)
    ?_ ⟨[], items, rfl, .beginning, isDecoded⟩ (.refl s)
  intro start left s' isLeft same
  rw [answers start s' same]
  obtain ⟨page, isRead, taken⟩ := reads.exists_turn pos distinct isLeft
  exact ⟨page, isRead, keeps start s' same, taken⟩

/-! ### Requests for pages -/

theorem queryStart_page (t : Table) (schema : KeySchema) (partition : Json)
    (options : QueryOptions) (pageSize : Option UInt32) (start : Option Cursor) :
    t.queryStart schema partition (options.page pageSize start) = .ok (start.map Cursor.key) := by
  cases start <;> rfl

theorem scanStart_page (t : Table) (schema : KeySchema) (options : ScanOptions)
    (pageSize : Option UInt32) (start : Option Cursor) :
    t.scanStart schema (options.page pageSize start) = .ok (start.map Cursor.key) := by
  obtain ⟨_, sortKey, _⟩ := schema
  cases start <;> cases sortKey <;> rfl

/-- A query that is made for one page is made for every other page of the same read, since size and
start are no part of its expressions. -/
theorem queryRequest_page {options : QueryOptions} {r : Request.Query}
    (made : (t.queryRequest index partition (options.page none none)).result = .ok r)
    (pageSize : Option UInt32) (start : Option Cursor) :
    (t.queryRequest index partition (options.page pageSize start)).result =
      .ok { r with limit := pageSize, exclusiveStartKey := start.map Cursor.key } :=
  queryRequest_restart made pageSize start none fun schema _ =>
    t.queryStart_page schema partition options pageSize start

/-- A scan that is made for one page is made for every other page of the same read, since size and
start are no part of its expressions. -/
theorem scanRequest_page {options : ScanOptions} {r : Request.Scan}
    (made : (t.scanRequest index (options.page none none)).result = .ok r)
    (pageSize : Option UInt32) (start : Option Cursor) :
    (t.scanRequest index (options.page pageSize start)).result =
      .ok { r with limit := pageSize, exclusiveStartKey := start.map Cursor.key } :=
  scanRequest_restart made pageSize start none none fun schema _ =>
    t.scanStart_page schema options pageSize start

/-- The expressions of a query for a partition alone. Only the value of the partition can fail to be
encoded. -/
theorem exists_substituted_partition (t : Table) (partitionKey : String) {a : Attribute}
    (encodes : t.marshaller.encode partition = .ok a) :
    ∃ made, (t.substituted (queryExpressions ⟨partitionKey, partition, none⟩ none)).result =
      .ok made := by
  let registry := KeyCondition.opened ⟨partitionKey, partition, none⟩
  have substitutions : t.substitutions registry =
      .ok ⟨registry.nameDict, Dict.ofList [(ValuePlaceholder.text ⟨1⟩, a)]⟩ := by
    show (t.encodeEntries [(ValuePlaceholder.text ⟨1⟩, partition)] >>= _) = _
    rw [encodeEntries_single encodes]
    rfl
  let clause : PlacedKeyClause := ⟨[.name ⟨0⟩], ⟨1⟩, none⟩
  have expressions : ((queryExpressions ⟨partitionKey, partition, none⟩ none).run .empty).result =
      .ok ((clause.text, none), registry) := rfl
  exact ⟨_, (Traced.result_bind_of_ok expressions _).trans <|
    (Traced.result_bind_of_ok substitutions _).trans rfl⟩

theorem exists_schema (t : Table) (defined : ∀ name ∈ index, (t.definition.index? name).isSome) :
    ∃ schema, t.schema index = .ok schema := by
  cases index with
  | none => exact ⟨_, rfl⟩
  | some name =>
      obtain ⟨ix, found⟩ := Option.isSome_iff_exists.1 (defined name rfl)
      refine ⟨ix.keySchema, ?_⟩
      show (t.index name).map Index.keySchema = _
      unfold Table.index
      rw [found]
      rfl

/-- A query of the table or of an index of it can be made, unless it asks for more than the
partition. Tests and filters have values of their own, which may fail. -/
theorem exists_queryRequest {schema : KeySchema} (hschema : t.schema index = .ok schema)
    {options : QueryOptions} (sort : options.sortKey = none) (filter : options.filter = none)
    {a : Attribute} (encodes : t.marshaller.encode partition = .ok a) (pageSize : Option UInt32)
    (start : Option Cursor) :
    ∃ r, (t.queryRequest index partition (options.page pageSize start)).result = .ok r := by
  have hsort : t.sortTest schema (options.page pageSize start).sortKey = .ok none := by
    show t.sortTest schema options.sortKey = _
    rw [sort]
    rfl
  have starts := t.queryStart_page schema partition options pageSize start
  obtain ⟨⟨⟨_, _⟩, _, _⟩, substituted⟩ :=
    exists_substituted_partition t schema.partitionKey encodes
  rw [← filter] at substituted
  refine ⟨_, (Traced.result_bind_of_ok hschema _).trans <|
    (Traced.result_bind_of_ok hsort _).trans <| (Traced.result_bind_of_ok starts _).trans <|
      (Traced.result_bind_of_ok substituted _).trans rfl⟩

/-- A scan of the table or of an index of it can be made, unless it filters. -/
theorem exists_scanRequest {schema : KeySchema} (hschema : t.schema index = .ok schema)
    {options : ScanOptions} (filter : options.filter = none) (pageSize : Option UInt32)
    (start : Option Cursor) :
    ∃ r, (t.scanRequest index (options.page pageSize start)).result = .ok r := by
  have starts := t.scanStart_page schema options pageSize start
  have substituted :
      (t.substituted (Expressions.condition (options.page pageSize start).filter)).result =
        .ok (none, ⟨[], []⟩) := by
    show (t.substituted (Expressions.condition options.filter)).result = _
    rw [filter]
    rfl
  refine ⟨_, (Traced.result_bind_of_ok hschema _).trans <|
    (Traced.result_bind_of_ok starts _).trans <|
      (Traced.result_bind_of_ok substituted _).trans rfl⟩

/-! ### Reads in pages -/

/-- Each page of a query is one of the items of its partition, which are the same for all pages. -/
theorem exists_result_query_page (calm : s.failure = none) {options : QueryOptions}
    {r : Request.Query}
    (made : (t.queryRequest index partition (options.page none none)).result = .ok r) :
    ∃ schema value, ∀ pageSize start s', s.SameContents s' →
      (t.query (α := α) Store.client index partition (options.page pageSize start)).result s' =
        t.queryPage schema (Store.queryResponse
          (s.page (s.partitionItems schema.partitionKey value options.descending)
            (start.map Cursor.key) pageSize)) := by
  obtain ⟨schema, value, hschema, -, -, order, -, partitioned⟩ := exists_of_queryRequest made
  refine ⟨schema, value, ?_⟩
  rintro pageSize start _ ⟨received, rfl⟩
  let r' := { r with limit := pageSize, exclusiveStartKey := start.map Cursor.key }
  have answered : Store.query r' { s with received } = .ok (Store.queryResponse
      (s.page (s.partitionItems schema.partitionKey value options.descending)
        (start.map Cursor.key) pageSize)) := Store.query_eq (r := r') partitioned order
  rw [result_query (s := { s with received }) calm, hschema, queryRequest_page made]
  show ((Store.query r' _).mapError TableError.service >>= _) = _
  rw [answered]
  rfl

/-- Each page of a scan is one of all items, which are the same for all pages. -/
theorem exists_result_scan_page (calm : s.failure = none) {options : ScanOptions}
    {r : Request.Scan} (made : (t.scanRequest index (options.page none none)).result = .ok r) :
    ∃ schema, ∀ pageSize start s', s.SameContents s' →
      (t.scan (α := α) Store.client index (options.page pageSize start)).result s' =
        t.scanPage schema
          (Store.scanResponse (s.page s.items (start.map Cursor.key) pageSize)) := by
  obtain ⟨schema, hschema, -⟩ := Traced.exists_of_result_bind made
  refine ⟨schema, ?_⟩
  rintro pageSize start _ ⟨received, rfl⟩
  rw [result_scan (s := { s with received }) calm, show t.schema index = _ from hschema,
    scanRequest_page made]
  rfl

/-- The pages of a query tile what the query reads without a page size. That this read succeeds is
how all records are known to be readable. -/
theorem exists_query_pages (calm : s.failure = none) (distinct : s.Distinct) {n : UInt32}
    (pos : 0 < n) {options : QueryOptions} {whole : QueryPage α}
    (read : (t.query Store.client index partition (options.page none none)).result s = .ok whole) :
    ∃ pages,
      Pages (fun start => t.query Store.client index partition (options.page (some n) start))
        QueryPage.next none s pages ∧
      Tiles QueryPage.records QueryPage.next n.toNat pages whole.records := by
  obtain ⟨r, made⟩ := exists_request_of_query calm read
  obtain ⟨schema, value, answers⟩ := exists_result_query_page (α := α) calm made
  rw [answers none none s (.refl s)] at read
  have reads := t.readsPages_query (α := α) schema
  exact exists_pages_of_items reads (answers (some n))
    (fun start => keeps_query_sameContents calm _) pos (distinct.partitionItems _ _ _)
    (reads.decodeAll_eq read)

/-- The pages of a scan tile what the scan reads without a page size. That this read succeeds is how
all records are known to be readable. -/
theorem exists_scan_pages (calm : s.failure = none) (distinct : s.Distinct) {n : UInt32}
    (pos : 0 < n) {options : ScanOptions} {whole : ScanPage α}
    (read : (t.scan Store.client index (options.page none none)).result s = .ok whole) :
    ∃ pages,
      Pages (fun start => t.scan Store.client index (options.page (some n) start))
        ScanPage.next none s pages ∧
      Tiles ScanPage.records ScanPage.next n.toNat pages whole.records := by
  obtain ⟨r, made⟩ := exists_request_of_scan calm read
  obtain ⟨schema, answers⟩ := exists_result_scan_page (α := α) calm made
  rw [answers none none s (.refl s)] at read
  have reads := t.readsPages_scan (α := α) schema
  exact exists_pages_of_items reads (answers (some n))
    (fun start => keeps_scan_sameContents calm _) pos distinct (reads.decodeAll_eq read)

/-- Items whose attributes can be read are documents, all of them. -/
theorem exists_decodeAll {items : List Item}
    (readable : ∀ item ∈ items, Each t.marshaller.Reads item) :
    ∃ decoded : List Json, t.decodeAll items = .ok decoded := by
  refine exists_except_mapM_iff.2 fun item mem => ?_
  obtain ⟨document, isDocument⟩ := exists_decodeItem_iff.2 (readable item mem)
  refine ⟨.object document, ?_⟩
  unfold decode
  rw [isDocument]
  rfl

/-- A query without a page size succeeds when its request can be made. What the store carries has to
be readable for the marshaller. -/
theorem exists_query (calm : s.failure = none) (readable : s.Carries t.marshaller.Reads)
    {options : QueryOptions} {r : Request.Query}
    (made : (t.queryRequest index partition (options.page none none)).result = .ok r) :
    ∃ whole : QueryPage Json,
      (t.query Store.client index partition (options.page none none)).result s = .ok whole := by
  obtain ⟨schema, value, answers⟩ := exists_result_query_page (α := Json) calm made
  have parts : ∀ item ∈ s.partitionItems schema.partitionKey value options.descending,
      Each t.marshaller.Reads item :=
    fun item mem => readable item (Store.mem_partitionItems mem).1
  obtain ⟨decoded, isDecoded⟩ := exists_decodeAll parts
  obtain ⟨whole, isWhole, -⟩ := (t.readsPages_query schema).exists_page _ none isDecoded nofun
  exact ⟨whole, (answers none none s (.refl s)).trans isWhole⟩

/-- A scan without a page size succeeds when its request can be made. What the store carries has to
be readable for the marshaller. -/
theorem exists_scan (calm : s.failure = none) (readable : s.Carries t.marshaller.Reads)
    {options : ScanOptions} {r : Request.Scan}
    (made : (t.scanRequest index (options.page none none)).result = .ok r) :
    ∃ whole : ScanPage Json,
      (t.scan Store.client index (options.page none none)).result s = .ok whole := by
  obtain ⟨schema, answers⟩ := exists_result_scan_page (α := Json) calm made
  obtain ⟨decoded, isDecoded⟩ := exists_decodeAll readable
  obtain ⟨whole, isWhole, -⟩ := (t.readsPages_scan schema).exists_page _ none isDecoded nofun
  exact ⟨whole, (answers none none s (.refl s)).trans isWhole⟩

/-- In every state of a store that calls lead to, a query or a scan in pages ends, and its pages
tile the records of the same read without a page size: for every partition, in both directions, on
the table and on its indexes, and for every size. Without a page size such a read gives documents as
soon as its request can be made, when the marshaller reads what the store holds. The request can be
made when it tests nothing and its partition can be encoded. That the state was led to by calls
gives different keys to the items, which is what makes a cursor one position; the property of
attributes that comes with it is only used for reading them. No failure may be prepared, since it
would take the place of a page, and with a size of zero no page would take anything. -/
theorem pages_tile (t : Table) {Q : Attribute → Prop} {partitionKey : String}
    {sortKey : Option String} {s : Store} (reached : s.Reached Q partitionKey sortKey)
    (calm : s.failure = none) {n : UInt32} (pos : 0 < n) :
    (∀ (α : Type) [FromDocument α] index partition (options : QueryOptions) (whole : QueryPage α),
      (t.query Store.client index partition (options.page none none)).result s = .ok whole →
      ∃ pages,
        Pages (fun start => t.query Store.client index partition (options.page (some n) start))
          QueryPage.next none s pages ∧
        Tiles QueryPage.records QueryPage.next n.toNat pages whole.records) ∧
    (∀ (α : Type) [FromDocument α] index (options : ScanOptions) (whole : ScanPage α),
      (t.scan Store.client index (options.page none none)).result s = .ok whole →
      ∃ pages,
        Pages (fun start => t.scan Store.client index (options.page (some n) start))
          ScanPage.next none s pages ∧
        Tiles ScanPage.records ScanPage.next n.toNat pages whole.records) ∧
    ((∀ a, Q a → t.marshaller.Reads a) →
      (∀ index partition (options : QueryOptions) r,
        (t.queryRequest index partition (options.page none none)).result = .ok r →
        ∃ whole : QueryPage Json,
          (t.query Store.client index partition (options.page none none)).result s = .ok whole) ∧
      ∀ index (options : ScanOptions) r,
        (t.scanRequest index (options.page none none)).result = .ok r →
        ∃ whole : ScanPage Json,
          (t.scan Store.client index (options.page none none)).result s = .ok whole) ∧
    ∀ index : Option String, (∀ name ∈ index, (t.definition.index? name).isSome) →
      (∀ partition a (options : QueryOptions), t.marshaller.encode partition = .ok a →
        options.sortKey = none → options.filter = none →
        ∃ r, (t.queryRequest index partition (options.page none none)).result = .ok r) ∧
      ∀ options : ScanOptions, options.filter = none →
        ∃ r, (t.scanRequest index (options.page none none)).result = .ok r := by
  -- what is read in pages, that something is read, and that there is a request for it
  refine ⟨?_, ?_, fun reads => ⟨?_, ?_⟩, fun index defined => ?_⟩
  · exact fun α _ index partition options whole =>
      exists_query_pages calm reached.distinct pos
  · exact fun α _ index options whole => exists_scan_pages calm reached.distinct pos
  · exact fun index partition options r => exists_query calm (reached.mono reads).carries
  · exact fun index options r => exists_scan calm (reached.mono reads).carries
  · obtain ⟨schema, hschema⟩ := t.exists_schema defined
    refine ⟨fun partition a options encodes sort filter => ?_, fun options filter => ?_⟩
    · exact exists_queryRequest hschema sort filter encodes none none
    · exact exists_scanRequest hschema filter none none

/-- Three visits, read in pages of two. -/
theorem pages_tile_three : ∃ (whole : QueryPage Json) (pages : List (QueryPage Json)),
    Store.threeVisits.Reached Marshaller.json.Writes "visitor" (some "time") ∧
      Store.threeVisits.failure = none ∧ (0 : UInt32) < 2 ∧ whole.records.length = 3 ∧
      Pages (fun start => visits.query Store.client none (.string "ann")
        (QueryOptions.page {} (some 2) start)) QueryPage.next none Store.threeVisits pages ∧
      Tiles QueryPage.records QueryPage.next 2 pages whole.records := by
  have read : (visits.query Store.client none (.string "ann")
      (QueryOptions.page {} none none)).result Store.threeVisits =
      .ok ⟨[visit (.bool true), visit .null, visit (.bool false)], none, none⟩ := rfl
  have pos : (0 : UInt32) < 2 := by decide
  obtain ⟨pages, isRead, tiles⟩ :=
    (visits.pages_tile Store.reached_threeVisits rfl pos).1 Json none (.string "ann") {} _ read
  exact ⟨_, pages, Store.reached_threeVisits, rfl, pos, rfl, isRead, tiles⟩

end Table

end DocumentTable
