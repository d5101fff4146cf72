import DocumentTable.Proofs.IndexStart
import DocumentTable.Proofs.KeyReading

/-!
# Keys that are created and keys that are queried

The request that creates a table lists the keys of the table and of its indexes. Queries and scans
look the key up in the definition. Both are about the same attributes, in whatever order the
definition was made.

## Main definitions

* `DefinitionStep`, `Definition.build`: definitions made step by step
* `Definition.Coherent`: what holds of a definition so made
* `Request.CreateTable.keys`: the keys that a request lists
* `Table.UsesKey`: the queries and the scans of a table or an index are about two attributes
* `Table.Lacks`: an index that no request can be made for

## Main results

* `Definition.indexes_build`: the indexes of a definition are those of its steps
* `Table.exists_schema_of_mem_keys`: a key that is listed is one that is looked up
* `Table.usesKey_of_schema`: queries and scans are about the key that is looked up
* `Table.created_keys_are_queried`: the keys that are created are those that are queried

## Design notes

A local index has its partition key twice: the request that creates it takes that of the table, and
a query takes the one that was copied when the index was added. They agree since no step changes
the partition key of the table. A name is looked up among all indexes, the first one of the name
counts, and so names have to be distinct.
-/

namespace DocumentTable

/-! ### Definitions made step by step -/

/-- A step in which a definition is made. -/
inductive DefinitionStep where
  | withSortKey (name : String)
  | withGlobalIndex (name partitionKey : String) (sortKey : Option String)
  | withLocalIndex (name sortKey : String)

namespace DefinitionStep

/-- The definition after a step. -/
def apply (d : Definition) : DefinitionStep → Definition
  | withSortKey name => d.withSortKey name
  | withGlobalIndex name partitionKey sortKey => d.withGlobalIndex name partitionKey sortKey
  | withLocalIndex name sortKey => d.withLocalIndex name sortKey

/-- The name of the global index that a step adds. -/
def globalName? : DefinitionStep → Option String
  | withGlobalIndex name _ _ => some name
  | _ => none

/-- The name of the local index that a step adds. -/
def localName? : DefinitionStep → Option String
  | withLocalIndex name _ => some name
  | _ => none

/-- The name of the index that a step adds. -/
def indexName? (step : DefinitionStep) : Option String :=
  step.globalName?.or step.localName?

/-- The index that a step adds to a table with a partition key. -/
def index? (partitionKey : String) : DefinitionStep → Option Index
  | withSortKey _ => none
  | withGlobalIndex name partitionKey sortKey => some ⟨name, partitionKey, sortKey, .globalIndex⟩
  | withLocalIndex name sortKey => some ⟨name, partitionKey, some sortKey, .localIndex⟩

@[simp] theorem partitionKey_apply (d : Definition) (step : DefinitionStep) :
    (step.apply d).partitionKey = d.partitionKey := by
  cases step <;> rfl

@[simp] theorem indexes_apply (d : Definition) (step : DefinitionStep) :
    (step.apply d).indexes = d.indexes ++ (step.index? d.partitionKey).toList := by
  cases step with
  | withSortKey name => exact (List.append_nil _).symm
  | withGlobalIndex name partitionKey sortKey => rfl
  | withLocalIndex name sortKey => rfl

end DefinitionStep

namespace Definition

/-- The definition that is made in some steps. -/
def build (name partitionKey : String) (steps : List DefinitionStep) : Definition :=
  steps.foldl DefinitionStep.apply (new name partitionKey)

variable {name partitionKey : String} {steps : List DefinitionStep}

/-- Steps keep the partition key, and each adds its index behind those that are there. Local indexes
take the partition key of the table, which is why it must not change. -/
theorem foldl_apply (d : Definition) (steps : List DefinitionStep) :
    (steps.foldl DefinitionStep.apply d).partitionKey = d.partitionKey ∧
      (steps.foldl DefinitionStep.apply d).indexes =
        d.indexes ++ steps.filterMap (DefinitionStep.index? d.partitionKey) := by
  induction steps generalizing d with
  | nil => exact ⟨rfl, (List.append_nil _).symm⟩
  | cons step steps ih =>
      obtain ⟨partitionKey, indexes⟩ := ih (step.apply d)
      rw [DefinitionStep.partitionKey_apply] at partitionKey indexes
      refine ⟨partitionKey, ?_⟩
      rw [List.foldl_cons, indexes, DefinitionStep.indexes_apply, List.append_assoc]
      congr 1
      cases added : step.index? d.partitionKey <;> simp [added]

@[simp] theorem partitionKey_build :
    (build name partitionKey steps).partitionKey = partitionKey :=
  (foldl_apply _ steps).1

/-- The indexes of a definition are those of its steps, in the order of the steps. -/
theorem indexes_build :
    (build name partitionKey steps).indexes =
      steps.filterMap (DefinitionStep.index? partitionKey) :=
  (foldl_apply (new name partitionKey) steps).2

/-- The names of the indexes of a kind are those that the steps give to such indexes. The two kinds
are listed apart in the request, and each keeps its order. -/
theorem map_name_filter_build {kind : IndexKind} {name? : DefinitionStep → Option String}
    (h : ∀ step, ((DefinitionStep.index? partitionKey step).filter (·.kind = kind)).map Index.name =
      name? step) :
    ((build name partitionKey steps).indexes.filter (·.kind = kind)).map Index.name =
      steps.filterMap name? := by
  rw [indexes_build, List.filter_filterMap, List.map_filterMap]
  exact List.filterMap_congr fun step _ => h step

theorem map_name_build :
    (build name partitionKey steps).indexes.map Index.name =
      steps.filterMap DefinitionStep.indexName? := by
  rw [indexes_build, List.map_filterMap]
  refine List.filterMap_congr fun step _ => ?_
  cases step <;> rfl

/-- The names of the indexes are distinct, and local indexes have the partition key of the table. -/
structure Coherent (d : Definition) : Prop where
  nodup : (d.indexes.map Index.name).Nodup
  partitionKey_eq : ∀ ix ∈ d.indexes, ix.kind = .localIndex → ix.partitionKey = d.partitionKey

/-- Steps that give distinct names make a coherent definition, whatever their order. -/
theorem coherent_build (distinct : (steps.filterMap DefinitionStep.indexName?).Nodup) :
    (build name partitionKey steps).Coherent where
  nodup := by rwa [map_name_build]
  partitionKey_eq := by
    intro ix mem isLocal
    rw [indexes_build, List.mem_filterMap] at mem
    obtain ⟨step, -, added⟩ := mem
    rw [partitionKey_build]
    cases step with
    | withSortKey name => cases added
    | withGlobalIndex name partitionKey sortKey =>
        cases added
        cases isLocal
    | withLocalIndex name sortKey =>
        cases added
        rfl

variable {d : Definition}

/-- An index is the one that is found under its name. With two indexes of one name a query would
find the first of them for both. -/
theorem Coherent.index?_eq (h : d.Coherent) {ix : Index} (mem : ix ∈ d.indexes) :
    d.index? ix.name = some ix := by
  cases found : d.index? ix.name with
  | none => simpa using List.find?_eq_none.1 found ix mem
  | some other =>
      have same : other.name = ix.name := by simpa using List.find?_some found
      rw [List.inj_on_of_nodup_map h.nodup (List.mem_of_find?_eq_some found) mem same]

theorem index?_eq_none {name : String} (absent : name ∉ d.indexes.map Index.name) :
    d.index? name = none := by
  refine List.find?_eq_none.2 fun ix mem => ?_
  have other : ix.name ≠ name := fun same => absent (same ▸ List.mem_map_of_mem mem)
  simpa using other

end Definition

/-! ### Keys that are listed -/

/-- The names of the elements of a key that have a role. -/
def KeyElement.namesOf (role : KeyRole) (elements : List KeyElement) : List String :=
  (elements.filter (·.role = role)).map KeyElement.name

@[simp] theorem KeyElement.namesOf_partition (partitionKey : String) (sortKey : Option String) :
    namesOf .partition (keyElements partitionKey sortKey) = [partitionKey] := by
  cases sortKey <;> rfl

@[simp] theorem KeyElement.namesOf_sort (partitionKey : String) (sortKey : Option String) :
    namesOf .sort (keyElements partitionKey sortKey) = sortKey.toList := by
  cases sortKey <;> rfl

/-- The keys that a request lists: that of the table, those of the global indexes and those of the
local ones, with the names of the indexes. -/
def Request.CreateTable.keys (r : Request.CreateTable) : List (Option String × List KeyElement) :=
  (none, r.keySchema) :: (r.globalIndexes.map fun ix => (some ix.name, ix.keySchema)) ++
    r.localIndexes.map fun ix => (some ix.name, ix.keySchema)

namespace Table

variable {t : Table} {index : Option String} {schema : KeySchema}

/-- A key that is listed is the one that queries and scans look up, for the table and for each
index. -/
theorem exists_schema_of_mem_keys (coherent : t.definition.Coherent) {options : CreateOptions}
    {elements : List KeyElement} (mem : (index, elements) ∈ (t.createRequest options).keys) :
    ∃ schema, t.schema index = .ok schema ∧
      elements = keyElements schema.partitionKey schema.sortKey := by
  have found {ix : Index} (mem : ix ∈ t.definition.indexes) :
      t.schema (some ix.name) = .ok ix.keySchema := by
    refine schema_of_index ?_
    rw [Table.index, coherent.index?_eq mem]
  rcases List.mem_append.1 mem with mem | mem
  · rcases List.mem_cons.1 mem with isTable | mem
    · cases isTable
      exact ⟨_, rfl, rfl⟩
    · obtain ⟨_, created, listed⟩ := List.mem_map.1 mem
      obtain ⟨ix, isGlobal, rfl⟩ := List.mem_map.1 created
      cases listed
      exact ⟨_, found (List.mem_of_mem_filter isGlobal), rfl⟩
  · obtain ⟨_, created, listed⟩ := List.mem_map.1 mem
    obtain ⟨ix, isLocal, rfl⟩ := List.mem_map.1 created
    cases listed
    obtain ⟨isIndex, isLocal⟩ := List.mem_filter.1 isLocal
    -- the request takes the partition key of the table, and the index has the same one
    refine ⟨_, found isIndex, ?_⟩
    rw [← coherent.partitionKey_eq ix isIndex (by simpa using isLocal)]
    rfl

/-- Each key is listed once, the one of the table among them. -/
theorem nodup_keys (coherent : t.definition.Coherent) (options : CreateOptions) :
    ((t.createRequest options).keys.map Prod.fst).Nodup := by
  have names : (t.createRequest options).keys.map Prod.fst =
      none :: ((t.definition.indexes.filter (·.kind = .globalIndex)) ++
        t.definition.indexes.filter (·.kind = .localIndex)).map fun ix => some ix.name := by
    simp [Request.CreateTable.keys, createRequest, Definition.createRequest, Function.comp_def]
  have split : (t.definition.indexes.filter (·.kind = .globalIndex) ++
      t.definition.indexes.filter (·.kind = .localIndex)).Perm t.definition.indexes := by
    have other : (fun ix : Index => decide (ix.kind = .localIndex)) =
        fun ix => !decide (ix.kind = .globalIndex) := by
      funext ix
      cases ix.kind <;> rfl
    rw [other]
    exact List.filter_append_perm _ _
  rw [names, List.nodup_cons]
  refine ⟨by simp, ((split.map _).nodup_iff).2 ?_⟩
  have distinct := coherent.nodup.map (Option.some_injective String)
  rwa [List.map_map] at distinct

/-! ### Keys that are used -/

/-- A start key that has a value for each of some attributes and for no other. -/
def StartsAt (t : Table) (names : List String) (values : List Json) (start : Option Item) : Prop :=
  ∃ key, start = some key ∧ names.length = values.length ∧
    t.encodeEntries (names.zip values) = .ok key ∧ ∀ name, name ∈ Dict.keys key ↔ name ∈ names

/-- The queries and the scans of the table or of an index are about the attributes of a key. -/
structure UsesKey (t : Table) (index : Option String) (partitionKey : String)
    (sortKey : Option String) : Prop where
  /-- A query asks for its partition and for its test of the sort key, if there is one. -/
  asks : ∀ partition options r, (t.queryRequest index partition options).result = .ok r →
    r.index = index ∧ (options.sortKey.isSome → sortKey.isSome) ∧
      t.Asks r ⟨partitionKey, partition, Option.map₂ Prod.mk sortKey options.sortKey⟩
  /-- A query that goes on without a cursor starts at its partition and at a sort key. -/
  queryStarts : ∀ partition sort (options : QueryOptions) r,
    (t.queryRequest index partition (options.behindSortKey sort)).result = .ok r →
      t.StartsAt (partitionKey :: sortKey.toList) [partition, sort] r.exclusiveStartKey
  /-- A scan has no key condition. -/
  scans : ∀ options r, (t.scanRequest index options).result = .ok r → r.index = index
  /-- A scan that goes on without a cursor starts at a key. -/
  scanStarts : ∀ partition sort (options : ScanOptions) r, partition.isSome ∨ sort.isSome →
    (t.scanRequest index (options.behindKey partition sort)).result = .ok r →
      t.StartsAt (partitionKey :: sortKey.toList) (partition.toList ++ sort.toList)
        r.exclusiveStartKey

/-- No request for an index can be made, and making one ends before anything is looked at but its
name. -/
def Lacks (t : Table) (index : String) : Prop :=
  (∀ partition options, t.queryRequest (some index) partition options =
      throw (.unknownIndex t.name index)) ∧
    ∀ options, t.scanRequest (some index) options = throw (.unknownIndex t.name index)

/-- A schema has the name that it was looked up under, or none for the table. -/
theorem index_of_schema (isSchema : t.schema index = .ok schema) : schema.index = index := by
  cases index with
  | none =>
      cases isSchema
      rfl
  | some name =>
      obtain ⟨ix, found, isSchema⟩ := exists_of_except_map isSchema
      subst isSchema
      rw [Table.index] at found
      split at found
      · next ix' isIndex =>
          cases found
          have named : ix.name = name := by simpa using List.find?_some isIndex
          exact congrArg some named
      · cases found

/-- A test of a sort key is of the one that there is. A test is refused where there is no sort key.
-/
theorem eq_of_sortTest {test : Option SortTest} {sort : Option (String × SortTest)}
    (isSort : t.sortTest schema test = .ok sort) :
    (test.isSome → schema.sortKey.isSome) ∧ sort = Option.map₂ Prod.mk schema.sortKey test := by
  -- only a test that is given asks for a sort key
  cases test with
  | none =>
      cases isSort
      exact ⟨nofun, (Option.map₂_none_right _ _).symm⟩
  | some test =>
      rw [sortTest] at isSort
      split at isSort
      · next name found =>
          cases isSort
          rw [found]
          exact ⟨fun _ => rfl, rfl⟩
      · cases isSort

theorem startsAt_of_encodeEntries {names : List String} {values : List Json} {key : Item}
    (complete : names.length = values.length)
    (encoded : t.encodeEntries (names.zip values) = .ok key) :
    t.StartsAt names values (some key) := by
  refine ⟨key, rfl, complete, encoded, fun name => ?_⟩
  rw [mem_keys_encodeEntries encoded, List.map_fst_zip complete.le]

/-- Queries and scans are about the key that is looked up for them, in their conditions and where
they start. -/
theorem usesKey_of_schema (isSchema : t.schema index = .ok schema) :
    t.UsesKey index schema.partitionKey schema.sortKey where
  asks := by
    intro partition options r made
    obtain ⟨_, sort, _, _, _, made⟩ := exists_queryMade made
    cases isSchema.symm.trans made.isSchema
    obtain ⟨sorted, rfl⟩ := eq_of_sortTest made.isSort
    exact ⟨made.isIndex.trans (index_of_schema isSchema), sorted, made.asks⟩
  queryStarts := by
    intro partition sort options r made
    obtain ⟨_, _, _, _, _, made⟩ := exists_queryMade made
    cases isSchema.symm.trans made.isSchema
    obtain ⟨key, isStart, complete, encoded⟩ := exists_of_queryStart made.starts
    rw [isStart]
    exact startsAt_of_encodeEntries complete encoded
  scans := by
    intro options r made
    obtain ⟨_, isSchema', made⟩ := Traced.exists_of_result_bind made
    obtain ⟨_, -, made⟩ := Traced.exists_of_result_bind made
    obtain ⟨_, -, made⟩ := Traced.exists_of_result_bind made
    cases made
    cases isSchema.symm.trans isSchema'
    exact index_of_schema isSchema
  scanStarts := by
    intro partition sort options r given made
    obtain ⟨_, isSchema', made⟩ := Traced.exists_of_result_bind made
    obtain ⟨_, starts, made⟩ := Traced.exists_of_result_bind made
    obtain ⟨_, -, made⟩ := Traced.exists_of_result_bind made
    cases made
    cases isSchema.symm.trans isSchema'
    obtain ⟨key, isStart, complete, encoded⟩ := exists_of_scanStart given starts
    rw [isStart]
    exact startsAt_of_encodeEntries complete encoded

/-- A name that no index has is noticed first, before values are encoded or conditions compiled. -/
theorem lacks_of_index?_eq_none {name : String} (absent : t.definition.index? name = none) :
    t.Lacks name := by
  have unknown : t.schema (some name) = .error (.unknownIndex t.name name) := by
    rw [Table.schema, Table.index, absent]
    rfl
  constructor
  · intro partition options
    unfold queryRequest
    rw [unknown]
    rfl
  · intro options
    unfold scanRequest
    rw [unknown]
    rfl

/-- The request that creates a table lists each index once, the global ones and the local ones in
the order in which they were added. The partition key and the sort key that it lists for the table
or for an index are what queries and scans are about, and local indexes have the partition key of
the table. No request can be made for another index. All this holds however the definition was made,
if its indexes have distinct names: of two indexes with one name, reads could only ever mean the
first. -/
theorem created_keys_are_queried {name partitionKey : String} {steps : List DefinitionStep}
    (built : t.definition = .build name partitionKey steps)
    (distinct : (steps.filterMap DefinitionStep.indexName?).Nodup) (options : CreateOptions) :
    (t.createRequest options).globalIndexes.map GlobalIndex.name =
        steps.filterMap DefinitionStep.globalName? ∧
      (t.createRequest options).localIndexes.map LocalIndex.name =
        steps.filterMap DefinitionStep.localName? ∧
      ((t.createRequest options).keys.map Prod.fst).Nodup ∧
      (∀ index elements, (index, elements) ∈ (t.createRequest options).keys →
        ∃ hash range, KeyElement.namesOf .partition elements = [hash] ∧
          KeyElement.namesOf .sort elements = range.toList ∧ t.UsesKey index hash range) ∧
      (∀ ix ∈ (t.createRequest options).localIndexes,
        KeyElement.namesOf .partition ix.keySchema =
          KeyElement.namesOf .partition (t.createRequest options).keySchema) ∧
      ∀ index ∉ steps.filterMap DefinitionStep.indexName?, t.Lacks index := by
  have coherent : t.definition.Coherent := built ▸ Definition.coherent_build distinct
  refine ⟨?_, ?_, nodup_keys coherent options, ?_, ?_, ?_⟩
  · rw [createRequest, Definition.createRequest, List.map_map, built]
    exact Definition.map_name_filter_build fun step => by cases step <;> rfl
  · rw [createRequest, Definition.createRequest, List.map_map, built]
    exact Definition.map_name_filter_build fun step => by cases step <;> rfl
  · intro index elements mem
    obtain ⟨schema, isSchema, rfl⟩ := exists_schema_of_mem_keys coherent mem
    exact ⟨schema.partitionKey, schema.sortKey, KeyElement.namesOf_partition _ _,
      KeyElement.namesOf_sort _ _, usesKey_of_schema isSchema⟩
  · intro ix mem
    obtain ⟨_, _, rfl⟩ := List.mem_map.1 mem
    exact (KeyElement.namesOf_partition _ _).trans (KeyElement.namesOf_partition _ _).symm
  · intro index absent
    refine lacks_of_index?_eq_none (Definition.index?_eq_none ?_)
    rwa [built, Definition.map_name_build]

/-- Visits with a local index that was added before the sort key of the table. -/
def steppedVisits : Table where
  definition := .build "visits" "visitor"
    [.withLocalIndex "byLength" "length", .withSortKey "time",
      .withGlobalIndex "byPage" "page" none]

/-- A query of the long visits of a visitor is about the key that was created for the local index,
and so is a scan that goes on in it. -/
theorem created_keys_are_queried_byLength : ∃ (created : Request.CreateTable) (r : Request.Query)
    (r' : Request.Scan),
    steppedVisits.createRequest {} = created ∧
      (some "byLength", [⟨"visitor", .partition⟩, ⟨"length", .sort⟩]) ∈ created.keys ∧
      (steppedVisits.queryRequest (some "byLength") (.string "ann")
        { sortKey := some (.ge (.string "long")) }).result = .ok r ∧
      r.keyCondition = "#attr0 = :val1 and #attr2 >= :val3" ∧
      steppedVisits.Asks r ⟨"visitor", .string "ann", some ("length", .ge (.string "long"))⟩ ∧
      (steppedVisits.scanRequest (some "byLength")
        (ScanOptions.behindKey {} (some (.string "ann")) (some (.string "long")))).result =
          .ok r' ∧
      steppedVisits.StartsAt ["visitor", "length"] [.string "ann", .string "long"]
        r'.exclusiveStartKey ∧
      steppedVisits.Lacks "byTime" := by
  obtain ⟨-, -, -, uses, -, lacks⟩ :=
    created_keys_are_queried (t := steppedVisits) rfl (by decide) {}
  have listed : (some "byLength", [⟨"visitor", .partition⟩, ⟨"length", .sort⟩]) ∈
      (steppedVisits.createRequest {}).keys := by decide
  obtain ⟨hash, range, isHash, isRange, usesKey⟩ := uses _ _ listed
  cases isHash
  cases range with
  | none => cases isRange
  | some range =>
      cases isRange
      have queried : (steppedVisits.queryRequest (some "byLength") (.string "ann")
          { sortKey := some (.ge (.string "long")) }).result = .ok _ := rfl
      have scanned : (steppedVisits.scanRequest (some "byLength")
          (ScanOptions.behindKey {} (some (.string "ann")) (some (.string "long")))).result =
            .ok _ := rfl
      obtain ⟨-, -, asks⟩ := usesKey.asks _ _ _ queried
      exact ⟨_, _, _, rfl, listed, queried, rfl, asks, scanned,
        usesKey.scanStarts _ _ _ _ (.inl rfl) scanned, lacks _ (by decide)⟩

end Table

end DocumentTable
