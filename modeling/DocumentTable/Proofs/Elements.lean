import DocumentTable.Proofs.Dict
import DocumentTable.Table.Calls
import Mathlib.Data.List.Forall2

/-!
# Elements of batches

A batch is given as values. Each of them becomes an item that is to be stored, or the key of an item
that is meant. A value that becomes neither is refused, and the error says what is wrong with it.

## Main definitions

* `Element`: whether values become items or keys
* `Table.wanted`: the attributes of a document that an item or a key is made of
* `Table.Storable`: a value that becomes an item or a key
* `Table.StoredAs`: what a value becomes
* `Table.Refuses`: the error with which values are refused
* `Table.prepare`: the items or keys of values, as a table makes them

## Main results

* `Table.storable_iff_exists`: a value is storable exactly when it becomes something
* `Table.storable_iff_of_forall`: which values are storable when the marshaller refuses none
* `Table.prepare_ok_iff`: what values are prepared as is what they become
* `Table.prepare_error_iff`: values that cannot be prepared are refused, with the same error
* `Table.exists_prepare_iff`: values can be prepared exactly when all of them are storable

## Design notes

What becomes of a value is said of its members, with the marshaller as the only function of the
table that is used. The functions that make items and keys are proved to do just that.
-/

namespace DocumentTable

/-- What the values of a batch become: items to store, or keys of items. -/
inductive Element where
  | item
  | key

/-- The entries of an item stand in the order of its document, those of a key in that of their
names. -/
def Element.arrange : Element → List (String × Attribute) → Item
  | item, entries => entries
  | key, entries => Dict.ofList entries

namespace Table

variable {t : Table} {element : Element}

/-! ### What becomes of a value -/

/-- The attributes that an item or a key is made of. An item has all members of its document. A key
has the key attributes, which the document may lack. -/
def wanted (t : Table) : Element → Document → List (String × Option Json)
  | .item, document => document.map fun m => (m.1, some m.2)
  | .key, document => t.definition.keyNames.map fun name => (name, Dict.get? document name)

/-- An attribute is there and becomes an entry of the same name. -/
def Stores (t : Table) (part : String × Option Json) (entry : String × Attribute) : Prop :=
  entry.1 = part.1 ∧
    ∃ value, part.2 = some value ∧ t.marshaller.encode value = .ok entry.2

/-- The error of an attribute that is missing or that the marshaller refuses. -/
inductive AtFault (t : Table) : String × Option Json → TableError → Prop
  | missing (name : String) : AtFault t (name, none) (.missingKeyAttribute name)
  | refused (name : String) {value : Json} {cause : MarshalError}
      (fails : t.marshaller.encode value = .error cause) :
      AtFault t (name, some value) (.marshal cause)

/-- A value that becomes an item or a key: it is an object, and each attribute that is wanted of it
is there and is accepted by the marshaller. -/
def Storable (t : Table) (element : Element) (value : Json) : Prop :=
  ∃ document, value = .object document ∧
    ∀ part ∈ t.wanted element document, ∃ entry, t.Stores part entry

/-- What a value becomes: an object becomes the entries of the attributes that are wanted of it. -/
def StoredAs (t : Table) (element : Element) (value : Json) (stored : Item) : Prop :=
  ∃ document entries, value = .object document ∧
    List.Forall₂ t.Stores (t.wanted element document) entries ∧ stored = element.arrange entries

/-- The error with which values are refused. The first value that is no object decides. When all of
them are objects, it is the first attribute that is missing or that the marshaller refuses. -/
inductive Refuses (t : Table) (element : Element) (values : List Json) : TableError → Prop
  | kind (before : List Json) (value : Json) (behind : List Json)
      (split : values = before ++ value :: behind)
      (objects : ∀ other ∈ before, ∃ document, other = .object document)
      (noObject : ∀ document, value ≠ .object document) :
      Refuses t element values (.marshal (.notAnObject value.kind))
  | part (documents : List Document) (before : List (String × Option Json))
      (part : String × Option Json) (behind : List (String × Option Json))
      {cause : TableError} (objects : values = documents.map .object)
      (split : documents.flatMap (t.wanted element) = before ++ part :: behind)
      (stored : ∀ other ∈ before, ∃ entry, t.Stores other entry)
      (fault : t.AtFault part cause) : Refuses t element values cause

/-! ### What a table makes of a value -/

/-- The stored form of a document, as an item or as a key. -/
def form (t : Table) : Element → Document → Except TableError Item
  | .item => t.encodeItem
  | .key => t.keyOf

/-- The entry of an attribute that is wanted. -/
def storeAttribute (t : Table) (part : String × Option Json) :
    Except TableError (String × Attribute) :=
  match part.2 with
  | none => .error (.missingKeyAttribute part.1)
  | some value => do return (part.1, ← t.encode value)

/-- An attribute that is wanted is made into an entry exactly when it is there and the marshaller
accepts it. -/
theorem storeAttribute_ok_iff {part : String × Option Json} {entry : String × Attribute} :
    t.storeAttribute part = .ok entry ↔ t.Stores part entry := by
  obtain ⟨name, member⟩ := part
  cases member with
  | none => exact iff_of_false nofun fun ⟨_, _, missing, _⟩ => nomatch missing
  | some value =>
      constructor
      · intro made
        obtain ⟨a, encoded, made⟩ := exists_of_except_bind made
        cases made
        exact ⟨rfl, value, rfl, except_mapError_ok_iff.1 encoded⟩
      · rintro ⟨same, value, there, encoded⟩
        obtain ⟨name, a⟩ := entry
        cases there
        cases same
        show (do return (name, ← t.encode value)) = Except.ok (name, a)
        rw [encode, except_mapError_ok_iff.2 encoded]
        rfl

/-- An attribute that is wanted cannot be made into an entry exactly when it is at fault, and the
error says how. -/
theorem storeAttribute_error_iff {part : String × Option Json} {cause : TableError} :
    t.storeAttribute part = .error cause ↔ t.AtFault part cause := by
  obtain ⟨name, member⟩ := part
  constructor
  · intro fails
    cases member with
    | none =>
        cases fails
        exact .missing name
    | some value =>
        unfold storeAttribute encode at fails
        dsimp only at fails
        cases encoded : t.marshaller.encode value with
        | error refusal =>
            rw [encoded] at fails
            cases fails
            exact .refused name encoded
        | ok a =>
            rw [encoded] at fails
            cases fails
  · intro fault
    cases fault with
    | missing => rfl
    | refused _ fails =>
        unfold storeAttribute encode
        dsimp only
        rw [fails]
        rfl

/-- The stored form of a document is made of the attributes that are wanted of it. Items and keys
are made by different functions, and differ in what is wanted and in how the entries are arranged.
-/
theorem form_eq (t : Table) (element : Element) (document : Document) :
    t.form element document =
      ((t.wanted element document).mapM t.storeAttribute).map element.arrange := by
  cases element with
  | item =>
      have members : t.encodeItem document =
          (document.map fun m => (m.1, some m.2)).mapM t.storeAttribute := by
        unfold encodeItem Marshaller.encodeItem
        induction document with
        | nil => rfl
        | cons m rest ih =>
            obtain ⟨name, value⟩ := m
            rw [List.map_cons, List.mapM_cons, ← ih, Dict.mapValuesM]
            unfold storeAttribute encode
            dsimp only
            cases t.marshaller.encode value with
            | error cause => rfl
            | ok a => cases Dict.mapValuesM t.marshaller.encode rest <;> rfl
      show t.encodeItem document = (List.mapM t.storeAttribute (document.map _)).map id
      rw [← members]
      cases t.encodeItem document <;> rfl
  | key =>
      -- a key is made by recursion on the names, so that the lists are compared name by name
      have attributes (names : List String) : t.keyAttributes document names =
          (names.map fun name => (name, Dict.get? document name)).mapM t.storeAttribute := by
        induction names with
        | nil => rfl
        | cons name names ih =>
            have first : t.keyAttribute document name =
                t.storeAttribute (name, Dict.get? document name) := by
              unfold keyAttribute storeAttribute
              cases Dict.get? document name <;> rfl
            rw [List.map_cons, List.mapM_cons, keyAttributes, first, ih]
      show t.keyOf document = _
      unfold keyOf
      rw [attributes]
      rfl

/-- The stored form of a value. -/
def formed (t : Table) (element : Element) (value : Json) : Except TableError Item :=
  documentOf value >>= t.form element

/-- A value is taken for a document exactly when it is an object. -/
theorem documentOf_ok_iff {value : Json} {document : Document} :
    documentOf value = .ok document ↔ value = .object document := by
  cases value with
  | object members => exact ⟨fun made => by cases made; rfl, fun same => by cases same; rfl⟩
  | _ => exact iff_of_false nofun nofun

/-- A value that is no object is refused, and the error says what it is instead. -/
theorem documentOf_error_iff {value : Json} {cause : TableError} :
    documentOf value = .error cause ↔
      (∀ document, value ≠ .object document) ∧ cause = .marshal (.notAnObject value.kind) := by
  constructor
  · intro fails
    cases value with
    | object members => cases fails
    | _ =>
        cases fails
        refine ⟨?_, rfl⟩
        rintro document ⟨⟩
  · rintro ⟨noObject, rfl⟩
    cases value with
    | object members => exact absurd rfl (noObject members)
    | _ => rfl

/-- The stored form of a value is what the value becomes, and a value that becomes nothing has none.
-/
theorem formed_ok_iff {value : Json} {stored : Item} :
    t.formed element value = .ok stored ↔ t.StoredAs element value stored := by
  constructor
  · intro made
    obtain ⟨document, documented, made⟩ := exists_of_except_bind made
    rw [form_eq] at made
    obtain ⟨entries, stores, rfl⟩ := exists_of_except_map made
    refine ⟨document, entries, documentOf_ok_iff.1 documented, ?_, rfl⟩
    exact (except_mapM_iff_forall₂.1 stores).imp fun _ _ => storeAttribute_ok_iff.1
  · rintro ⟨document, entries, rfl, each, rfl⟩
    have stores : (t.wanted element document).mapM t.storeAttribute = .ok entries :=
      except_mapM_iff_forall₂.2 (each.imp fun _ _ => storeAttribute_ok_iff.2)
    show t.form element document = _
    rw [form_eq, stores]
    rfl

/-- A value is storable exactly when it becomes something. What is asked of each attribute alone is
thus enough for all of them. -/
theorem storable_iff_exists {value : Json} :
    t.Storable element value ↔ ∃ stored, t.StoredAs element value stored := by
  have each (document : Document) :
      (∀ part ∈ t.wanted element document, ∃ entry, t.Stores part entry) ↔
        ∃ entries, List.Forall₂ t.Stores (t.wanted element document) entries := by
    have made := exists_except_mapM_iff (f := t.storeAttribute) (l := t.wanted element document)
    simp only [except_mapM_iff_forall₂, storeAttribute_ok_iff] at made
    exact made.symm
  constructor
  · rintro ⟨document, isObject, stores⟩
    obtain ⟨entries, stores⟩ := (each document).1 stores
    exact ⟨_, document, entries, isObject, stores, rfl⟩
  · rintro ⟨_, document, entries, isObject, stores, -⟩
    exact ⟨document, isObject, (each document).2 ⟨entries, stores⟩⟩

/-- A marshaller that accepts every value leaves two faults: a value that is no object, and a key
attribute that is missing. The default marshaller is one of this kind. -/
theorem storable_iff_of_forall (accepts : ∀ value, ∃ a, t.marshaller.encode value = .ok a)
    {value : Json} : t.Storable element value ↔
      ∃ document, value = .object document ∧
        (element = .key → ∀ name ∈ t.definition.keyNames, (Dict.get? document name).isSome) := by
  have stores (name : String) (member : Json) : ∃ entry, t.Stores (name, some member) entry := by
    obtain ⟨a, encoded⟩ := accepts member
    exact ⟨(name, a), rfl, member, rfl, encoded⟩
  refine exists_congr fun document => and_congr_right fun _ => ?_
  cases element with
  | item =>
      refine iff_of_true (fun part mem => ?_) nofun
      obtain ⟨m, -, rfl⟩ := List.mem_map.1 mem
      exact stores m.1 m.2
  | key =>
      simp only [wanted, List.forall_mem_map, forall_true_left]
      refine forall₂_congr fun name _ => ?_
      cases Dict.get? document name with
      | none => exact iff_of_false (fun ⟨_, _, _, missing, _⟩ => nomatch missing) nofun
      | some member => exact iff_of_true (stores name member) rfl

/-! ### Values together -/

/-- The stored forms of values. All values become documents before the first of these is stored. -/
def prepare (t : Table) (element : Element) (values : List Json) :
    Except TableError (List Item) := do
  let documents ← documentsOf values
  documents.mapM (t.form element)

variable {values : List Json} {stored : List Item}

/-- Values are prepared together when each of them has a stored form, although all of them are
checked for being objects first. -/
theorem prepare_ok_iff :
    t.prepare element values = .ok stored ↔ values.map (t.formed element) = stored.map .ok := by
  rw [← except_mapM_ok_iff]
  have inTurn {documents : List Document} (documented : documentsOf values = .ok documents) :
      values.mapM (t.formed element) = documents.mapM (t.form element) :=
    except_mapM_bind (except_mapM_ok_iff.1 documented) _
  constructor
  · intro made
    obtain ⟨documents, documented, made⟩ := exists_of_except_bind made
    rw [inTurn documented, made]
  · intro made
    obtain ⟨documents, documented⟩ : ∃ documents, documentsOf values = .ok documents := by
      refine exists_except_mapM_iff.2 fun value mem => ?_
      obtain ⟨item, isForm⟩ := exists_except_mapM_iff.1 ⟨stored, made⟩ value mem
      obtain ⟨document, documented, -⟩ := exists_of_except_bind isForm
      exact ⟨document, documented⟩
    unfold prepare
    rw [documented]
    exact (inTurn documented).symm.trans made

/-- The stored forms of values are what the values become, one by one. -/
theorem map_formed_iff :
    values.map (t.formed element) = stored.map .ok ↔
      List.Forall₂ (t.StoredAs element) values stored := by
  rw [← except_mapM_ok_iff, except_mapM_iff_forall₂]
  simp only [formed_ok_iff]

/-- Values can be prepared exactly when all of them are storable. One that is not refuses the batch
as a whole. -/
theorem exists_prepare_iff :
    (∃ stored, t.prepare element values = .ok stored) ↔
      ∀ value ∈ values, t.Storable element value := by
  simp only [prepare_ok_iff, ← except_mapM_ok_iff, exists_except_mapM_iff, formed_ok_iff,
    storable_iff_exists]

/-- Documents fail for the first attribute at fault in all of them, as if their attributes were one
list. -/
theorem mapM_form_error_iff {documents : List Document} {cause : TableError} :
    documents.mapM (t.form element) = .error cause ↔
      (documents.flatMap (t.wanted element)).mapM t.storeAttribute = .error cause := by
  induction documents with
  | nil => exact iff_of_false nofun nofun
  | cons document rest ih =>
      rw [List.mapM_cons, form_eq, List.flatMap_cons, List.mapM_append]
      cases (t.wanted element document).mapM t.storeAttribute with
      | error cause' =>
          show Except.error cause' = .error cause ↔ Except.error cause' = .error cause
          rw [Except.error.injEq, Except.error.injEq]
      | ok entries =>
          show (rest.mapM (t.form element) >>= fun items =>
              pure (element.arrange entries :: items)) = .error cause ↔
            ((rest.flatMap (t.wanted element)).mapM t.storeAttribute >>= fun others =>
              pure (entries ++ others)) = .error cause
          rw [except_bind_pure_error_iff, except_bind_pure_error_iff, ih]

/-- Values that cannot be prepared are refused, and the error that they fail with is the one that
they are refused with. A value that is no object is found before any attribute that is at fault,
wherever the two stand. -/
theorem prepare_error_iff {cause : TableError} :
    t.prepare element values = .error cause ↔ t.Refuses element values cause := by
  -- all values become documents before the first of them is encoded
  have documentsOf_ok_iff {documents : List Document} :
      documentsOf values = .ok documents ↔ values = documents.map .object :=
    except_mapM_eq_ok fun _ _ => documentOf_ok_iff
  constructor
  · intro fails
    unfold prepare at fails
    cases documented : documentsOf values with
    | error cause' =>
        rw [documented] at fails
        cases fails
        obtain ⟨before, value, behind, split, objects, fails⟩ :=
          except_mapM_error_iff.1 documented
        obtain ⟨noObject, rfl⟩ := documentOf_error_iff.1 fails
        simp only [documentOf_ok_iff] at objects
        exact .kind before value behind split objects noObject
    | ok documents =>
        rw [documented] at fails
        obtain ⟨before, part, behind, split, stores, fails⟩ :=
          except_mapM_error_iff.1 (mapM_form_error_iff.1 fails)
        simp only [storeAttribute_ok_iff] at stores
        exact .part documents before part behind (documentsOf_ok_iff.1 documented) split stores
          (storeAttribute_error_iff.1 fails)
  · intro refuses
    unfold prepare
    cases refuses with
    | kind before value behind split objects noObject =>
        simp only [← documentOf_ok_iff] at objects
        have fails : documentsOf values = .error (.marshal (.notAnObject value.kind)) :=
          except_mapM_error_iff.2
            ⟨before, value, behind, split, objects, documentOf_error_iff.2 ⟨noObject, rfl⟩⟩
        rw [fails]
        rfl
    | part documents before part behind objects split stored fault =>
        simp only [← storeAttribute_ok_iff] at stored
        rw [documentsOf_ok_iff.2 objects]
        exact mapM_form_error_iff.2 (except_mapM_error_iff.2
          ⟨before, part, behind, split, stored, storeAttribute_error_iff.2 fault⟩)

end Table

end DocumentTable
