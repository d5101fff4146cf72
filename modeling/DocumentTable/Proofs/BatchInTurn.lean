import DocumentTable.Proofs.FanOut
import DocumentTable.Proofs.StoreMap

/-!
# Batches and calls in turn

A store that is sent a batch does what it does when the elements of the batch come in calls of their
own, one after the other. Writes beyond its capacity are returned instead, and reads return the same
records.

## Main definitions

* `Store.unlogged`: a store but for the requests received
* `inCapacity`, `overCapacity`: what a capacity lets through of a list that comes in runs, and the
  rest
* `Table.putEach`, `Table.deleteEach`, `Table.getEach`: calls in turn
* `Table.AsInTurn`: a batch of writes against the same writes in turn

## Main results

* `Table.writeBatches_of_calm`: what batches of writes do to a store and return
* `Table.result_batchGet`, `Table.result_transactGet`: the records that are read together
* `Table.batches_eq_inTurn`: batches and transactions against calls in turn

## Design notes

All elements of a batch are prepared before the first of them is sent, while calls in turn send what
precedes an element that cannot be. So it is said of batches that fail what they leave of the store,
which is everything, and not that calls in turn leave the same.
-/

namespace DocumentTable

open Exchange

/-! ### Lists in runs -/

section Runs

variable {α β : Type}

/-- The parts of a list of images are the images of the parts, since a list is cut by its length
only. -/
theorem chunks_map (f : α → β) (size : Nat) (l : List α) :
    chunks size (l.map f) = (chunks size l).map (List.map f) := by
  fun_induction chunks size l with
  | case1 l done =>
      rw [chunks, dif_pos (done.imp_left fun empty => by rw [empty, List.map_nil]), List.map_nil]
  | case2 l more ih =>
      rw [not_or] at more
      rw [chunks_of_ne_nil more.2 (mt List.map_eq_nil_iff.1 more.1), ← List.map_take,
        ← List.map_drop, ih, List.map_cons]

/-- What a capacity lets through of a list that comes in runs of 25. -/
def inCapacity (capacity : Nat) (l : List α) : List α :=
  (chunks 25 l).flatMap (List.take capacity)

/-- What a capacity holds back of a list that comes in runs of 25. -/
def overCapacity (capacity : Nat) (l : List α) : List α :=
  (chunks 25 l).flatMap (List.drop capacity)

/-- What is within a capacity depends on the length of the parts only. -/
theorem inCapacity_map (f : α → β) (capacity : Nat) (l : List α) :
    inCapacity capacity (l.map f) = (inCapacity capacity l).map f := by
  unfold inCapacity
  rw [chunks_map, List.flatMap_map, List.map_flatMap]
  simp only [List.map_take]

theorem overCapacity_map (f : α → β) (capacity : Nat) (l : List α) :
    overCapacity capacity (l.map f) = (overCapacity capacity l).map f := by
  unfold overCapacity
  rw [chunks_map, List.flatMap_map, List.map_flatMap]
  simp only [List.map_drop]

end Runs

/-! ### Stores without their requests -/

namespace Store

/-- The store but for the requests received. -/
def unlogged (s : Store) : Store :=
  { s with received := [] }

variable {s : Store}

/-- What a write does does not depend on the requests received. Calls in turn are logged otherwise
than a batch, so the logs are left out where both are compared. -/
theorem Write.unlogged_apply (s : Store) (w : Write) :
    (w.apply s).unlogged = w.apply s.unlogged := by
  have bare : (w.apply s).bare = (w.apply s.unlogged).bare := by
    rw [Write.bare_apply, Write.bare_apply]
    rfl
  have items : (w.apply s).bare.items = (w.apply s.unlogged).bare.items := by rw [bare]
  cases w <;> exact congrArg (fun items => { s.unlogged with items }) items

/-- What writes do, one after the other, does not depend on the requests received. -/
theorem unlogged_foldl (writes : List Write) (s : Store) :
    (writes.foldl Write.apply s).unlogged = writes.foldl Write.apply s.unlogged := by
  induction writes generalizing s with
  | nil => rfl
  | cons w rest ih => simp only [List.foldl_cons, ih, Write.unlogged_apply]

/-- Writes leave the failure that is prepared as it is. -/
theorem failure_foldl (writes : List Write) (s : Store) :
    (writes.foldl Write.apply s).failure = s.failure := by
  induction writes generalizing s with
  | nil => rfl
  | cons w rest ih =>
      rw [List.foldl_cons, ih]
      cases w <;> rfl

/-- Writes change neither the failure that is prepared nor the capacity. -/
theorem settings_of_unlogged {s' : Store} {writes : List Write}
    (after : s'.unlogged = writes.foldl Write.apply s.unlogged) :
    s'.failure = s.failure ∧ s'.writeCapacity = s.writeCapacity := by
  have failure := congrArg Store.failure after
  have capacity := congrArg Store.writeCapacity after
  rw [failure_foldl] at failure
  rw [writeCapacity_foldl] at capacity
  exact ⟨failure, capacity⟩

/-- A request that succeeds makes its writes. -/
theorem unlogged_after_send {op : Operation} {r : op.Request} {response : op.Response}
    (answered : (client.send op r).result s = .ok response) :
    ((client.send op r).after s).unlogged =
      (writesOf s.writeCapacity op r).foldl Write.apply s.unlogged := by
  rw [handle_eq_foldl (handle_of_send answered), unlogged_foldl]
  rfl

/-- The writes of a batch that a capacity does not let happen. -/
def refused (capacity : Option Nat) (entries : List WriteEntry) : List WriteEntry :=
  match capacity with
  | none => []
  | some capacity => entries.drop capacity

/-- The answer to a batch for one table: the writes that did not happen. -/
theorem result_send_batchWriteItem (calm : s.failure = none) (table : String)
    (entries : List WriteEntry) :
    (client.send .batchWriteItem ⟨[(table, entries)]⟩).result s =
      .ok { unprocessed :=
        if (refused s.writeCapacity entries).isEmpty then []
        else [(table, refused s.writeCapacity entries)] } := by
  rw [result_send calm]
  show Except.ok (Response.BatchWriteItem.mk (writeTables _ [(table, entries)]).1) = _
  unfold writeTables writeAll refused
  rw [show (s.receive ⟨.batchWriteItem, ⟨[(table, entries)]⟩⟩).writeCapacity = s.writeCapacity
    from rfl]
  cases s.writeCapacity <;> rfl

end Store

/-! ### Calls of one element -/

namespace Table

variable {α : Type} {t : Table} {s : Store} {element : Element}

/-- A call makes a write of the stored form of its value, and fails when there is none. -/
structure MakesWrite (t : Table) (element : Element) (write : Item → Store.Write)
    (call : Json → Exchange Store TableError Unit) : Prop where
  makes : ∀ {value item s}, s.failure = none → t.formed element value = .ok item →
    (call value).result s = .ok () ∧ ((call value).after s).unlogged = (write item).apply s.unlogged
  refuses : ∀ {value cause} s, t.formed element value = .error cause →
    (call value).result s = .error cause

/-- Without a condition there are no placeholders, and nothing can fail. -/
theorem result_substituted_none (t : Table) :
    (t.substituted (Expressions.condition none)).result = .ok (none, ⟨[], []⟩) := rfl

/-- A put without options can be built when its document can be encoded. -/
theorem result_putRequest (t : Table) (document : Document) :
    (t.putRequest document {}).result =
      (t.encodeItem document).map fun item => { table := t.name, item } := by
  unfold putRequest
  rw [Traced.result_bind, result_substituted_none]
  refine (Traced.result_bind (.ofExcept (t.encodeItem document)) _).trans ?_
  rw [Traced.result_ofExcept]
  cases t.encodeItem document <;> rfl

theorem result_deleteRequest (t : Table) (document : Document) :
    (t.deleteRequest document {}).result =
      (t.keyOf document).map fun key => { table := t.name, key } := by
  refine (Traced.result_bind (.ofExcept (t.keyOf document)) _).trans ?_
  rw [Traced.result_ofExcept]
  cases t.keyOf document <;> rfl

/-- A call that sends a request built of the stored form of its value makes the write of the
request. -/
theorem makesWrite_of_sendBuilt {write : Item → Store.Write} {op : Operation}
    {request : Item → op.Request} {build : Document → Traced TableError op.Request}
    {call : Json → Exchange Store TableError Unit}
    (sends : ∀ value, call value =
      t.sendBuilt Store.client op (.ofExcept (documentOf value) >>= build))
    (builds : ∀ document, (build document).result = (t.form element document).map request)
    (writes : ∀ capacity item, Store.writesOf capacity op (request item) = [write item])
    (answers : ∀ (s : Store) item, s.failure = none →
      ∃ response, (Store.client.send op (request item)).result s = .ok response) :
    t.MakesWrite element write call := by
  have built (value : Json) : (Traced.ofExcept (documentOf value) >>= build).result =
      (t.formed element value).map request := by
    rw [Traced.result_bind, Traced.result_ofExcept]
    unfold formed
    cases documentOf value with
    | error cause => rfl
    | ok document => exact builds document
  constructor
  · intro value item s calm isForm
    have isRequest :
        (Traced.ofExcept (documentOf value) >>= build).result = .ok (request item) := by
      rw [built, isForm]
      rfl
    have one := t.sendsOne_sendBuilt Store.client isRequest
    obtain ⟨response, answered⟩ := answers s item calm
    rw [sends, one.result_eq, one.after_eq, answered, Store.unlogged_after_send answered, writes]
    exact ⟨rfl, rfl⟩
  · intro value cause s fails
    rw [sends]
    refine (t.sendBuilt_of_error Store.client ?_ s).1
    rw [built, fails]
    rfl

/-- A put in turn makes the put of the stored form of its value. -/
theorem makesWrite_put (t : Table) :
    t.MakesWrite .item .put (fun item => t.put Store.client item {}) :=
  makesWrite_of_sendBuilt (fun item => t.put_eq_sendBuilt Store.client item {})
    t.result_putRequest (fun _ _ => rfl) fun _ item calm =>
      ⟨{}, Store.result_send calm .putItem { table := t.name, item }⟩

theorem makesWrite_delete (t : Table) :
    t.MakesWrite .key .remove (fun key => t.delete Store.client key {}) :=
  makesWrite_of_sendBuilt (fun key => t.delete_eq_sendBuilt Store.client key {})
    t.result_deleteRequest (fun _ _ => rfl) fun _ key calm =>
      ⟨{}, Store.result_send calm .deleteItem { table := t.name, key }⟩

/-! ### Writes in turn -/

variable {write : Item → Store.Write} {call : Json → Exchange Store TableError Unit}
  {values : List Json}

/-- A call leaves the failure that is prepared as it is, so that the next call meets a calm store
again. -/
theorem MakesWrite.failure_after (makes : t.MakesWrite element write call) (calm : s.failure = none)
    {value : Json} {item : Item} (isForm : t.formed element value = .ok item) :
    ((call value).after s).failure = none := by
  have after : ((call value).after s).unlogged = [write item].foldl Store.Write.apply s.unlogged :=
    (makes.makes calm isForm).2
  exact (Store.settings_of_unlogged after).1.trans calm

/-- Calls that make writes make them in turn, by induction on the values. Each value is given its
stored form, since a call without one fails. -/
theorem MakesWrite.inTurn (makes : t.MakesWrite element write call) (calm : s.failure = none)
    {stored : List Item} (each : values.map (t.formed element) = stored.map .ok) :
    (forM values call).result s = .ok () ∧
      ((forM values call).after s).unlogged =
        (stored.map write).foldl Store.Write.apply s.unlogged := by
  induction values generalizing s stored with
  | nil =>
      cases stored with
      | nil => exact ⟨rfl, rfl⟩
      | cons => cases each
  | cons value values ih =>
      cases stored with
      | nil => cases each
      | cons item stored =>
          obtain ⟨first, others⟩ := List.cons.inj each
          obtain ⟨result, after⟩ := makes.makes calm first
          obtain ⟨rest, later⟩ := ih (makes.failure_after calm first) others
          rw [List.forM_cons, result_bind, after_bind, result]
          refine ⟨rest, later.trans ?_⟩
          rw [after, List.map_cons, List.foldl_cons]

/-- Calls that make writes succeed in turn only when each value has a stored form. A call without
one ends the sequence with an error. -/
theorem MakesWrite.exists_of_inTurn (makes : t.MakesWrite element write call)
    (calm : s.failure = none) (succeeds : (forM values call).result s = .ok ()) :
    ∃ stored : List Item, values.map (t.formed element) = stored.map .ok := by
  induction values generalizing s with
  | nil => exact ⟨[], rfl⟩
  | cons value values ih =>
      rw [List.forM_cons, result_bind] at succeeds
      cases isForm : t.formed element value with
      | error cause =>
          rw [makes.refuses s isForm] at succeeds
          cases succeeds
      | ok item =>
          rw [(makes.makes calm isForm).1] at succeeds
          obtain ⟨stored, others⟩ := ih (makes.failure_after calm isForm) succeeds
          refine ⟨item :: stored, ?_⟩
          rw [List.map_cons, isForm, others, List.map_cons]

/-! ### Writes in batches -/

/-- A batch is made as far as the capacity goes, and the other writes are returned. -/
theorem writeBatch_of_calm (t : Table) (calm : s.failure = none) (part : List WriteEntry) :
    (t.writeBatch Store.client ⟨[(t.name, part)]⟩).result s =
        .ok (Store.refused s.writeCapacity part) ∧
      ((t.writeBatch Store.client ⟨[(t.name, part)]⟩).after s).unlogged =
        ((Store.admitted s.writeCapacity part).flatMap WriteEntry.writes).foldl Store.Write.apply
          s.unlogged := by
  have sends := t.sendsOne_writeBatch Store.client ⟨[(t.name, part)]⟩
  have answered := Store.result_send_batchWriteItem calm t.name part
  constructor
  · rw [sends.result_eq, answered]
    show Except.ok (t.writesLeft _) = _
    unfold writesLeft
    split
    · next none => rw [List.isEmpty_iff.1 none, Dict.get?_nil, Option.getD_none]
    · rw [Dict.get?_cons, if_pos rfl, Option.getD_some]
  · rw [sends.after_eq, Store.unlogged_after_send answered, Store.writesOf,
      List.flatMap_singleton]

/-- Batches are made one after the other, each as far as the capacity goes. -/
theorem mapM_writeBatch_of_calm (t : Table) (calm : s.failure = none)
    (parts : List (List WriteEntry)) :
    let sent := (parts.map fun part => ⟨[(t.name, part)]⟩).mapM (t.writeBatch Store.client)
    sent.result s = .ok (parts.map (Store.refused s.writeCapacity)) ∧
      (sent.after s).unlogged =
        ((parts.flatMap (Store.admitted s.writeCapacity)).flatMap WriteEntry.writes).foldl
          Store.Write.apply s.unlogged := by
  induction parts generalizing s with
  | nil => exact ⟨rfl, rfl⟩
  | cons part parts ih =>
      obtain ⟨result, after⟩ := t.writeBatch_of_calm calm part
      obtain ⟨failure, capacity⟩ := Store.settings_of_unlogged after
      obtain ⟨rest, later⟩ := ih (failure.trans calm)
      rw [capacity] at rest later
      intro sent
      constructor
      · unfold sent
        rw [List.map_cons, result_mapM_cons, result, List.map_cons]
        show Except.map _ _ = _
        rw [rest]
        rfl
      · unfold sent
        rw [List.map_cons, after_mapM_cons, result, List.flatMap_cons, List.flatMap_append,
          List.foldl_append, ← after]
        exact later

/-- Writes come in batches of 25, and of each batch the capacity lets so many happen. What is left
over of all batches is returned together. -/
theorem writeBatches_of_calm (t : Table) (calm : s.failure = none) (entries : List WriteEntry) :
    let sent := t.writeBatches Store.client (t.batchWriteRequests entries)
    sent.result s = .ok ⟨(chunks 25 entries).flatMap (Store.refused s.writeCapacity)⟩ ∧
      (sent.after s).unlogged =
        (((chunks 25 entries).flatMap (Store.admitted s.writeCapacity)).flatMap
          WriteEntry.writes).foldl Store.Write.apply s.unlogged := by
  obtain ⟨result, after⟩ := t.mapM_writeBatch_of_calm calm (chunks maxBatchWrite entries)
  intro sent
  unfold sent writeBatches
  rw [result_bind_pure, after_bind_pure]
  unfold batchWriteRequests
  rw [result]
  exact ⟨rfl, after⟩

/-! ### Batches and writes in turn -/

/-- Stores items one after the other. -/
def putEach {σ : Type} (t : Table) (client : Client σ) (items : List Json) :
    Exchange σ TableError Unit :=
  forM items fun item => t.put client item {}

/-- Deletes the items of keys one after the other. -/
def deleteEach {σ : Type} (t : Table) (client : Client σ) (keys : List Json) :
    Exchange σ TableError Unit :=
  forM keys fun key => t.delete client key {}

/-- A batch of writes does what the writes in turn do, as far as the capacity goes, or it leaves the
store alone. -/
structure AsInTurn (t : Table) (element : Element) (entry : Item → WriteEntry)
    (batch : Exchange Store TableError BatchWritten)
    (inTurn : List Json → Exchange Store TableError Unit) (values : List Json) (s : Store) :
    Prop where
  /-- The batch succeeds exactly when all of its values are storable. -/
  storable_iff : (∃ written, batch.result s = .ok written) ↔
    ∀ value ∈ values, t.Storable element value
  /-- The batch fails exactly when one of the writes in turn does. -/
  succeeds_iff : (∃ written, batch.result s = .ok written) ↔ (inTurn values).result s = .ok ()
  /-- Without a capacity all writes happen. -/
  unlimited : ∀ {written}, batch.result s = .ok written → s.writeCapacity = none →
    written.unprocessed = [] ∧ (batch.after s).unlogged = ((inTurn values).after s).unlogged
  /-- A capacity lets the first writes of each run happen, and the others are returned in order. -/
  limited : ∀ {written}, batch.result s = .ok written → ∀ {capacity},
    s.writeCapacity = some capacity →
    (inTurn (inCapacity capacity values)).result s = .ok () ∧
      (batch.after s).unlogged = ((inTurn (inCapacity capacity values)).after s).unlogged ∧
      ∃ stored, List.Forall₂ (t.StoredAs element) (overCapacity capacity values) stored ∧
        written.unprocessed = stored.map entry
  /-- A batch that fails leaves the store alone. -/
  refused : ∀ {cause}, batch.result s = .error cause → batch.after s = s

/-- What a capacity lets through of values has the stored forms that it lets through. -/
theorem map_formed_inCapacity {stored : List Item} (capacity : Nat)
    (each : values.map (t.formed element) = stored.map .ok) :
    (inCapacity capacity values).map (t.formed element) = (inCapacity capacity stored).map .ok := by
  rw [← inCapacity_map, each, inCapacity_map]

/-- What a capacity holds back of values has the stored forms that it holds back. -/
theorem map_formed_overCapacity {stored : List Item} (capacity : Nat)
    (each : values.map (t.formed element) = stored.map .ok) :
    (overCapacity capacity values).map (t.formed element) =
      (overCapacity capacity stored).map .ok := by
  rw [← overCapacity_map, each, overCapacity_map]

/-- The writes of entries that have one write each. -/
theorem flatMap_writes {entry : Item → WriteEntry}
    (writes : ∀ item, (entry item).writes = [write item]) (stored : List Item) :
    (stored.map entry).flatMap WriteEntry.writes = stored.map write := by
  rw [List.flatMap_map]
  simp only [writes]
  exact List.map_eq_flatMap.symm

/-- A batch of writes does what its calls do in turn, as far as the capacity goes. Puts and deletes
differ in which write a call makes, and in nothing else. -/
theorem MakesWrite.asInTurn (makes : t.MakesWrite element write call) {entry : Item → WriteEntry}
    (writes : ∀ item, (entry item).writes = [write item]) (calm : s.failure = none) :
    t.AsInTurn element entry
      (t.sendPrepared element (fun stored => t.batchWriteRequests (stored.map entry))
        (t.writeBatches Store.client) values)
      (fun values => forM values call) values s := by
  rw [sendPrepared_eq]
  have storable : (∃ stored, t.prepare element values = .ok stored) ↔
      ∀ value ∈ values, t.Storable element value := exists_prepare_iff
  cases made : t.prepare element values with
  | error cause =>
      rw [made] at storable
      refine ⟨iff_of_false nofun (mt storable.2 nofun), iff_of_false nofun fun succeeds => ?_,
        nofun, nofun, fun _ => rfl⟩
      -- calls that all succeed have prepared every value, each its own
      obtain ⟨stored, each⟩ := makes.exists_of_inTurn calm succeeds
      rw [prepare_ok_iff.2 each] at made
      cases made
  | ok stored =>
      have each := prepare_ok_iff.1 made
      obtain ⟨result, after⟩ := t.writeBatches_of_calm calm (stored.map entry)
      refine ⟨iff_of_true ⟨_, result⟩ (storable.1 ⟨stored, made⟩),
        iff_of_true ⟨_, result⟩ (makes.inTurn calm each).1, ?_, ?_, ?_⟩
      · intro written isWritten unlimited
        cases result.symm.trans isWritten
        have all : (chunks 25 (stored.map entry)).flatMap (Store.admitted none) =
            stored.map entry := List.flatMap_id'.trans (flatten_chunks (by decide) _)
        rw [unlimited, all, flatMap_writes writes, ← (makes.inTurn calm each).2] at after
        rw [unlimited]
        exact ⟨List.flatMap_eq_nil_iff.2 fun _ _ => rfl, after⟩
      · intro written isWritten capacity limited
        cases result.symm.trans isWritten
        rw [limited] at after ⊢
        obtain ⟨succeeds, inTurn⟩ := makes.inTurn calm (map_formed_inCapacity capacity each)
        refine ⟨succeeds, ?_, overCapacity capacity stored,
          map_formed_iff.1 (map_formed_overCapacity capacity each),
          overCapacity_map entry capacity stored⟩
        rw [inTurn, ← flatMap_writes writes, ← inCapacity_map]
        exact after
      · intro cause fails
        cases result.symm.trans fails

/-! ### Reads -/

variable [FromDocument α]

/-- What is read of a store at a key. -/
def found (t : Table) (s : Store) (key : Item) : Except TableError (Option α) :=
  match s.lookup key with
  | none => .ok none
  | some item => (t.decode item).map some

/-- The records of keys, read one after the other. Missing ones are left out. -/
def getEach {σ : Type} (t : Table) (client : Client σ) (keys : List Json) (options : GetOptions) :
    Exchange σ TableError (List α) := do
  return (← keys.mapM fun key => t.get client key options).filterMap id

/-- What the response to a read is read as. -/
def readItem (t : Table) (response : Response.GetItem) : Except TableError (Option α) :=
  match response.item with
  | none => .ok none
  | some item => (t.decode item).map some

/-- A get of a key that can be encoded sends one request, and reads its answer. -/
theorem sendsOne_get {σ : Type} {client : Client σ} {t : Table} {key : Json} {document : Document}
    {options : GetOptions} {r : Request.GetItem} (documented : documentOf key = .ok document)
    (made : t.getRequest document options = .ok r) :
    SendsOne client (t.get (α := α) client key options) .getItem r t.readItem := by
  refine .ofTraced_bind (x := .ofExcept (documentOf key)) documented
    (.ofTraced_bind (x := .ofExcept (t.getRequest document options)) made
      (sendsOne_send .getItem r (fun response s => ?_) fun response s => ?_))
  · unfold readItem
    cases response.item with
    | none => rfl
    | some item =>
        refine (result_bind (ofTraced (.ofExcept (t.decode item))) _ s).trans ?_
        rw [result_ofTraced]
        show t.decode item >>= _ = (t.decode item).map some
        cases t.decode (α := α) item <;> rfl
  · cases response.item with
    | none => rfl
    | some item =>
        refine (after_ofTraced_bind (.ofExcept (t.decode item)) _ s).trans ?_
        split <;> rfl

/-- A get changes no item. -/
theorem keeps_get_sameContents (t : Table) (calm : s.failure = none) (key : Json)
    (options : GetOptions) : (t.get (α := α) Store.client key options).Keeps s.SameContents := by
  refine keeps_ofTraced_bind fun document _ => keeps_ofTraced_bind fun request _ => ?_
  refine (keeps_send (Store.keeps_sameContents calm fun _ => rfl)).bind fun response => ?_
  split
  · exact keeps_ofTraced _
  · exact keeps_ofTraced_bind fun _ _ => keeps_ofTraced _

/-- A read of a key finds the item that the store has at its stored form. -/
theorem result_get (t : Table) (calm : s.failure = none) (key : Json) (options : GetOptions) :
    (t.get (α := α) Store.client key options).result s = t.formed .key key >>= t.found s := by
  unfold formed
  cases documented : documentOf key with
  | error cause =>
      unfold get
      rw [result_bind]
      show documentOf key >>= _ = _
      rw [documented]
      rfl
  | ok document =>
      show _ = t.keyOf document >>= t.found s
      cases isKey : t.keyOf document with
      | error cause =>
          have fails : t.getRequest document options = .error cause := by
            unfold getRequest
            rw [isKey]
            rfl
          refine Eq.trans
            (result_ofTraced_bind_of_ok (x := .ofExcept (documentOf key)) documented _ s) ?_
          rw [result_bind]
          show t.getRequest document options >>= _ = _
          rw [fails]
          rfl
      | ok k =>
          obtain ⟨r, made, same⟩ : ∃ r, t.getRequest document options = .ok r ∧ r.key = k := by
            unfold getRequest
            rw [isKey]
            exact ⟨_, rfl, rfl⟩
          rw [(sendsOne_get documented made).result_eq, Store.result_send calm]
          rw [← same]
          rfl

/-- Reads of keys one after the other find what the store has at their stored forms. -/
theorem result_mapM_get (t : Table) (calm : s.failure = none) (keys : List Json)
    (options : GetOptions) :
    (keys.mapM fun key => t.get (α := α) Store.client key options).result s =
      keys.mapM fun key => t.formed .key key >>= t.found s := by
  refine result_mapM_of_keeps (fun key => t.keeps_get_sameContents calm key options) ?_ keys
    (.refl s)
  rintro key _ ⟨received, rfl⟩
  exact t.result_get (s := { s with received }) calm key options

/-- What is found of keys is the records of the items that are there. -/
theorem mapM_found (t : Table) (s : Store) (ks : List Item) :
    (ks.mapM (t.found (α := α) s)).map (List.filterMap id) =
      t.decodeAll (ks.filterMap s.lookup) := by
  induction ks with
  | nil => rfl
  | cons k ks ih =>
      cases present : s.lookup k with
      | none =>
          have first : t.found (α := α) s k = .ok none := by
            unfold found
            rw [present]
          rw [List.filterMap_cons_none present, ← ih, List.mapM_cons, first]
          cases ks.mapM (t.found (α := α) s) <;> rfl
      | some item =>
          have first : t.found (α := α) s k = (t.decode item).map some := by
            unfold found
            rw [present]
          unfold decodeAll at ih ⊢
          rw [List.filterMap_cons_some present, List.mapM_cons, List.mapM_cons, ← ih, first]
          cases t.decode (α := α) item with
          | error cause => rfl
          | ok record => cases ks.mapM (t.found (α := α) s) <;> rfl

/-- Reads one after the other return the records of the items that are there. Keys without an item
are passed over. -/
theorem result_getEach_of_formed (t : Table) (calm : s.failure = none) (options : GetOptions)
    {keys : List Json} {ks : List Item} (each : keys.map (t.formed .key) = ks.map .ok) :
    (t.getEach (α := α) Store.client keys options).result s =
      t.decodeAll (ks.filterMap s.lookup) := by
  unfold getEach
  rw [result_bind_pure, t.result_mapM_get calm keys options, except_mapM_bind each,
    mapM_found]

/-- Reads one after the other succeed only when each key has a stored form, by induction on the
keys. -/
theorem exists_of_getEach (t : Table) (calm : s.failure = none) {options : GetOptions}
    {keys : List Json} {records : List α}
    (succeeds : (t.getEach Store.client keys options).result s = .ok records) :
    ∃ ks : List Item, keys.map (t.formed .key) = ks.map .ok := by
  unfold getEach at succeeds
  rw [result_bind_pure, t.result_mapM_get calm keys options] at succeeds
  obtain ⟨found, succeed, -⟩ := exists_of_except_map succeeds
  have each := exists_except_mapM_iff.1 ⟨found, succeed⟩
  obtain ⟨ks, succeed⟩ := exists_except_mapM_iff.2 fun key mem =>
    have ⟨_, read⟩ := each key mem
    have ⟨k, isKey, _⟩ := exists_of_except_bind read
    (⟨k, isKey⟩ : ∃ k, t.formed .key key = .ok k)
  exact ⟨ks, except_mapM_ok_iff.1 succeed⟩

/-! ### Reads together -/

/-- A batch of reads returns the records of the items that are there. -/
theorem result_readBatch (t : Table) (calm : s.failure = none) (options : GetOptions)
    (ks : List Item) :
    (t.readBatch (α := α) Store.client (t.readRequest options ks)).result s =
      (t.decodeAll (ks.filterMap s.lookup)).map fun records => ⟨records, []⟩ := by
  rw [(t.sendsOne_readBatch Store.client _).result_eq, Store.result_send calm]
  show t.readFound ⟨[(t.name, ks.filterMap s.lookup)], []⟩ = _
  unfold readFound itemsFound keysLeft
  rw [Dict.get?_cons, if_pos rfl, Option.getD_some]
  rfl

/-- A batch of reads changes no item, so that the batches read the same store. -/
theorem keeps_readBatch_sameContents (t : Table) (calm : s.failure = none)
    (r : Request.BatchGetItem) :
    (t.readBatch (α := α) Store.client r).Keeps s.SameContents := by
  intro s' same
  rw [(t.sendsOne_readBatch Store.client r).after_eq]
  exact Store.keeps_sameContents calm (fun _ => rfl) s' same

/-- The records of items in parts are those of the items, so that it makes no difference where
batches begin. -/
theorem mapM_decodeAll (t : Table) (s : Store) (parts : List (List Item)) :
    (parts.mapM fun ks => (t.decodeAll (α := α) (ks.filterMap s.lookup)).map
        fun records => (⟨records, []⟩ : BatchRead α)).map
      (fun batches => (⟨batches.flatMap (·.records), batches.flatMap (·.unprocessed)⟩ :
        BatchRead α)) =
      (t.decodeAll (parts.flatten.filterMap s.lookup)).map fun records => ⟨records, []⟩ := by
  induction parts with
  | nil => rfl
  | cons ks parts ih =>
      have split : t.decodeAll (α := α) ((ks :: parts).flatten.filterMap s.lookup) = do
          let first ← t.decodeAll (ks.filterMap s.lookup)
          return first ++ (← t.decodeAll (parts.flatten.filterMap s.lookup)) := by
        unfold decodeAll
        rw [List.flatten_cons, List.filterMap_append, List.mapM_append]
      rw [List.mapM_cons, split]
      -- what becomes of the other parts is the same on both sides by induction, and is named
      generalize parts.mapM (m := Except TableError) _ = others at ih ⊢
      cases t.decodeAll (α := α) (ks.filterMap s.lookup) with
      | error cause => rfl
      | ok first =>
          cases others with
          | error cause =>
              rw [except_map_error_iff.1 ih.symm]
              rfl
          | ok batches =>
              obtain ⟨rest, decoded, same⟩ := exists_of_except_map ih.symm
              obtain ⟨records, unprocessed⟩ := BatchRead.mk.inj same
              rw [decoded]
              show Except.ok (BatchRead.mk (first ++ batches.flatMap _) (batches.flatMap _)) = _
              rw [← records, ← unprocessed]
              rfl

/-- Batches of reads return the records of the items that are there, whatever their sizes are. -/
theorem result_readBatches (t : Table) (calm : s.failure = none) (options : GetOptions)
    (ks : List Item) :
    (t.readBatches (α := α) Store.client
      ((chunks maxBatchGet ks).map (t.readRequest options))).result s =
        (t.decodeAll (ks.filterMap s.lookup)).map fun records => ⟨records, []⟩ := by
  have batches : ((chunks maxBatchGet ks).mapM
      (t.readBatch (α := α) Store.client ∘ t.readRequest options)).result s =
        (chunks maxBatchGet ks).mapM fun ks =>
          (t.decodeAll (ks.filterMap s.lookup)).map fun records => ⟨records, []⟩ := by
    refine result_mapM_of_keeps (fun _ => t.keeps_readBatch_sameContents calm _) ?_ _ (.refl s)
    rintro ks _ ⟨received, rfl⟩
    exact t.result_readBatch (s := { s with received }) calm options ks
  unfold readBatches
  rw [result_bind_pure, List.mapM_map, batches, mapM_decodeAll, flatten_chunks (by decide)]

/-- A batch of reads returns the records that reads in turn return. -/
theorem result_batchGet (t : Table) (calm : s.failure = none) (keys : List Json)
    (options : GetOptions) :
    (t.batchGet (α := α) Store.client keys options).result s =
      t.prepare .key keys >>= fun ks =>
        (t.decodeAll (ks.filterMap s.lookup)).map fun records => ⟨records, []⟩ := by
  show (t.sendPrepared .key (fun ks => (chunks maxBatchGet ks).map (t.readRequest options))
    (t.readBatches Store.client) keys).result s = _
  rw [sendPrepared_eq, result_bind]
  show t.prepare .key keys >>= _ = _
  refine congrArg _ (funext fun ks => ?_)
  exact t.result_readBatches calm options ks

/-- The request that reads a few keys in one transaction. Beyond a hundred keys none is made. -/
theorem transactGetRequest_of_few (t : Table) {documents : List Document}
    (few : documents.length ≤ 100) :
    t.transactGetRequest documents =
      (t.keysOf documents).map fun ks => ⟨ks.map fun key => ⟨{ table := t.name, key }⟩⟩ := by
  have within : ¬ documents.length > maxTransaction := Nat.not_lt.2 few
  unfold transactGetRequest
  dsimp only
  rw [if_neg within]
  cases t.keysOf documents <;> rfl

/-- A transaction of reads returns the records of the items that are there. -/
theorem result_transactGet (t : Table) (calm : s.failure = none) {keys : List Json}
    (few : keys.length ≤ 100) :
    (t.transactGet (α := α) Store.client keys).result s =
      t.prepare .key keys >>= fun ks => t.decodeAll (ks.filterMap s.lookup) := by
  unfold transactGet prepare
  rw [result_bind]
  show documentsOf keys >>= _ = _
  cases documented : documentsOf keys with
  | error cause => rfl
  | ok documents =>
      have few : documents.length ≤ 100 := (length_of_except_mapM documented).trans_le few
      show (ofTraced (.ofExcept (t.transactGetRequest documents)) >>= _ : Exchange _ _ _).result s =
        t.keysOf documents >>= _
      rw [result_bind, t.transactGetRequest_of_few few]
      cases t.keysOf documents with
      | error cause => rfl
      | ok ks =>
          show (t.send Store.client .transactGetItems
            ⟨ks.map fun key => ⟨{ table := t.name, key }⟩⟩ >>= _).result s = _
          rw [result_bind, Table.result_send, Store.result_send calm]
          show t.decodeAll ((List.map _ (ks.map _)).filterMap _) = _
          rw [List.map_map, List.filterMap_map]
          rfl

/-- Reads together and reads in turn have the same records, if any. -/
theorem toOption_eq_getEach {β : Type} (t : Table) (calm : s.failure = none) (options : GetOptions)
    {keys : List Json} (f : List α → β) :
    (t.prepare .key keys >>= fun ks =>
        (t.decodeAll (ks.filterMap s.lookup)).map f).toOption =
      ((t.getEach Store.client keys options).result s).toOption.map f := by
  cases made : t.prepare .key keys with
  | error cause =>
      cases inTurn : (t.getEach (α := α) Store.client keys options).result s with
      | error cause' => rfl
      | ok records =>
          obtain ⟨ks, each⟩ := t.exists_of_getEach calm inTurn
          rw [prepare_ok_iff.2 each] at made
          cases made
  | ok ks =>
      rw [t.result_getEach_of_formed calm options (prepare_ok_iff.1 made)]
      show ((t.decodeAll (ks.filterMap s.lookup)).map f).toOption = _
      cases t.decodeAll (α := α) (ks.filterMap s.lookup) <;> rfl

/-- Batches and transactions do what calls in turn do, on a store that is not to fail. Writes
succeed exactly when each value can be stored, and of each batch the capacity of the store lets the
first ones happen and returns the others; reads have the same records. A prepared failure is
excluded, as it would take the place of the first answer. -/
theorem batches_eq_inTurn (t : Table) {s : Store} (calm : s.failure = none) :
    (∀ items : List Json,
      t.AsInTurn .item (fun item => { put := some ⟨item⟩ })
        (t.batchPut Store.client items) (t.putEach Store.client) items s) ∧
      (∀ keys : List Json,
        t.AsInTurn .key (fun key => { delete := some ⟨key⟩ })
          (t.batchDelete Store.client keys) (t.deleteEach Store.client) keys s) ∧
      ∀ (α : Type) [FromDocument α] (keys : List Json) (options : GetOptions),
        ((t.batchGet (α := α) Store.client keys options).result s).toOption =
            ((t.getEach Store.client keys options).result s).toOption.map
              (fun records => ⟨records, []⟩) ∧
          (keys.length ≤ 100 →
            ((t.transactGet (α := α) Store.client keys).result s).toOption =
              ((t.getEach Store.client keys options).result s).toOption) := by
  refine ⟨fun items => ?_, fun keys => ?_, fun α _ keys options => ⟨?_, fun few => ?_⟩⟩
  · exact t.makesWrite_put.asInTurn (fun _ => rfl) calm
  · exact t.makesWrite_delete.asInTurn (fun _ => rfl) calm
  · rw [t.result_batchGet calm]
    exact t.toOption_eq_getEach calm options _
  · have together : _ = ((t.getEach (α := α) Store.client keys options).result s).toOption.map id :=
      t.toOption_eq_getEach calm options id
    rw [Option.map_id_fun, id] at together
    rw [t.result_transactGet calm few, ← together]
    refine congrArg Except.toOption (congrArg _ (funext fun ks => ?_))
    cases t.decodeAll (α := α) (ks.filterMap s.lookup) <;> rfl

/-- Of two deletes a capacity of one lets the first happen, and the other is returned. -/
theorem batchDelete_limited :
    let s : Store := { Store.threeVisits with writeCapacity := some 1 }
    let batch := Table.visits.batchDelete Store.client [visit (.bool true), visit .null]
    s.failure = none ∧
      (batch.after s).unlogged =
        ((Table.visits.deleteEach Store.client [visit (.bool true)]).after s).unlogged ∧
      ∃ written, batch.result s = .ok written ∧ written.unprocessed.length = 1 := by
  intro s batch
  have inTurn := (Table.visits.batches_eq_inTurn (s := s) rfl).2.1 [visit (.bool true), visit .null]
  obtain ⟨written, succeeds⟩ := inTurn.succeeds_iff.2 rfl
  obtain ⟨-, same, stored, each, left⟩ := inTurn.limited succeeds rfl
  have oneRun : chunks 25 [visit (.bool true), visit .null] =
      [[visit (.bool true), visit .null]] := by
    rw [chunks_of_ne_nil (by decide) (List.cons_ne_nil _ _)]
    exact congrArg _ (chunks_nil 25)
  unfold inCapacity at same
  unfold overCapacity at each
  rw [oneRun] at same each
  have count := each.length_eq
  refine ⟨rfl, same, written, succeeds, ?_⟩
  rw [left, List.length_map, ← count]
  rfl

/-- A key without a sort key is found before the first delete of a batch, and after the first of the
deletes in turn. -/
theorem batchDelete_ne_inTurn :
    let keys : List Json := [visit (.bool true), .object [("visitor", .string "ann")]]
    Store.threeVisits.Reached Marshaller.json.Writes "visitor" (some "time") ∧
      Store.threeVisits.failure = none ∧ Store.threeVisits.writeCapacity = none ∧
      ((Table.visits.batchDelete Store.client keys).after Store.threeVisits).items.length = 3 ∧
      ((Table.visits.deleteEach Store.client keys).after Store.threeVisits).items.length = 2 :=
  ⟨Store.reached_threeVisits, rfl, rfl, rfl, rfl⟩

end Table

end DocumentTable
