import DocumentTable.Proofs.Reached
import DocumentTable.Proofs.StoreReads

/-!
# Runs of a store

A store answers any requests, in any order. Between them a failure may be prepared and batches may
be limited. What the run leaves of items is what its writes leave.

## Main definitions

* `Store.Act`: what happens to a store
* `Store.run`: the store after a sequence of acts
* `Store.writesAlong`: the writes of a run in the order in which they happen

## Main results

* `Store.run_eq_foldl`: the items of a run are those that its writes leave one after the other
* `Store.run_invariant`: what writes keep is kept by runs
* `Store.exists_run_of_call`: the calls of a table are runs

## Design notes

The requests need not be ones that a table builds. A request that fails has no writes, and neither
has one that is answered by a prepared failure.
-/

namespace DocumentTable

namespace Store

/-- What happens to a store. -/
inductive Act where
  | send (op : Operation) (request : op.Request)
  /-- The next request is to fail. -/
  | fail (cause : ServiceError)
  /-- Batches are limited. -/
  | limit (capacity : Nat)

/-- The store after an act. -/
def Act.after (s : Store) : Act → Store
  | send op request => (client.send op request).after s
  | fail cause => { s with failure := some cause }
  | limit capacity => { s with writeCapacity := some capacity }

/-- The writes of an act. -/
def Act.writes (s : Store) : Act → List Write
  | send op request =>
    match (client.send op request).result s with
    | .ok _ => writesOf s.writeCapacity op request
    | .error _ => []
  | fail _ => []
  | limit _ => []

/-- The store after a sequence of acts. -/
def run (s : Store) (acts : List Act) : Store :=
  acts.foldl Act.after s

/-- The writes of a sequence of acts in the order in which they happen. -/
def writesAlong (s : Store) : List Act → List Write
  | [] => []
  | act :: rest => act.writes s ++ writesAlong (act.after s) rest

variable {s s' : Store}

/-! ### Items of a run -/

/-- A store with no more than its items. -/
def bare (s : Store) : Store :=
  { partitionKey := s.partitionKey, sortKey := s.sortKey, items := s.items }

theorem insertInOrder_bare (s : Store) (item : Item) (items : List Item) :
    s.bare.insertInOrder item items = s.insertInOrder item items := by
  induction items with
  | nil => rfl
  | cons other rest ih =>
      rw [insertInOrder, insertInOrder, ih]
      rfl

theorem replaceFirst_bare (s : Store) (item : Item) (items : List Item) :
    s.bare.replaceFirst item items = s.replaceFirst item items := by
  induction items with
  | nil => rfl
  | cons other rest ih =>
      rw [replaceFirst, replaceFirst, ih]
      rfl

theorem bare_upsert (s : Store) (item : Item) : (s.upsert item).bare = s.bare.upsert item := by
  unfold upsert
  rw [show s.bare.items = s.items from rfl, insertInOrder_bare, replaceFirst_bare]
  rfl

/-- What a write does depends on the items only. Two stores with the same items may differ in their
logs and settings, and still do the same. -/
theorem Write.bare_apply (s : Store) (w : Write) : (w.apply s).bare = w.apply s.bare := by
  cases w with
  | clear => rfl
  | put item => exact bare_upsert s item
  | remove key => rfl
  | update key text names values => exact bare_upsert s _

theorem bare_foldl (writes : List Write) (s : Store) :
    (writes.foldl Write.apply s).bare = writes.foldl Write.apply s.bare := by
  induction writes generalizing s with
  | nil => rfl
  | cons w rest ih => rw [List.foldl_cons, ih, Write.bare_apply, List.foldl_cons]

/-- The items after a request are those that its writes leave, whether it succeeds or not; a request
that fails has none. -/
theorem Act.bare_after (s : Store) (act : Act) :
    (act.after s).bare = (act.writes s).foldl Write.apply s.bare := by
  cases act with
  | send op request =>
      unfold after writes Exchange.result Exchange.after Exchange.run client
      dsimp only
      split
      · rfl
      · split
        · next response s' succeeds =>
            rw [handle_eq_foldl succeeds, bare_foldl]
            rfl
        · rfl
  | fail cause => rfl
  | limit capacity => rfl

/-- The items of a run are those that its writes leave one after the other. From here on runs are
lists of writes. -/
theorem run_eq_foldl (s : Store) (acts : List Act) :
    (s.run acts).bare = (s.writesAlong acts).foldl Write.apply s.bare := by
  induction acts generalizing s with
  | nil => rfl
  | cons act rest ih =>
      show ((act.after s).run rest).bare = _
      rw [ih, Act.bare_after, writesAlong, List.foldl_append]

/-- A run may be cut into two, the second of which starts where the first has ended. -/
theorem run_append (s : Store) (acts more : List Act) :
    s.run (acts ++ more) = (s.run acts).run more :=
  List.foldl_append

/-! ### What runs keep -/

@[simp] theorem keyNames_bare (s : Store) : s.bare.keyNames = s.keyNames := rfl

@[simp] theorem Write.keyNames_apply (s : Store) (w : Write) :
    (w.apply s).keyNames = s.keyNames := by
  cases w <;> rfl

theorem keyNames_foldl (writes : List Write) (s : Store) :
    (writes.foldl Write.apply s).keyNames = s.keyNames := by
  induction writes generalizing s with
  | nil => rfl
  | cons w rest ih => rw [List.foldl_cons, ih, Write.keyNames_apply]

@[simp] theorem keyNames_run (s : Store) (acts : List Act) :
    (s.run acts).keyNames = s.keyNames := by
  rw [← keyNames_bare, run_eq_foldl, keyNames_foldl, keyNames_bare]

/-- What writes keep is kept by an act. The property must not depend on the log or on the settings,
which an act may change. -/
theorem Act.keeps {P : Store → Prop} (contents : OfContents P)
    (kept : ∀ (w : Write) s, P s → P (w.apply s)) (act : Act) (holds : P s) : P (act.after s) := by
  cases act with
  | send op request => exact keeps_send contents (fun _ w _ s holds => kept w s holds) s holds
  | fail cause => exact contents.failure _ _ holds
  | limit capacity => exact contents.writeCapacity _ _ holds

/-- What writes keep is kept by runs, by induction on the acts. Each invariant of the store then
needs to be shown for single writes only. -/
theorem run_invariant {P : Store → Prop} (contents : OfContents P)
    (kept : ∀ (w : Write) s, P s → P (w.apply s)) (holds : P s) (acts : List Act) :
    P (s.run acts) :=
  List.foldlRecOn _ _ holds fun _ holds act _ => act.keeps contents kept holds

/-- No two items of a run have the same key, if none had at its start. -/
theorem Distinct.run (distinct : s.Distinct) (acts : List Act) : (s.run acts).Distinct :=
  run_invariant distinct_ofContents (fun w _ distinct => distinct.apply w) distinct acts

/-! ### Calls are runs -/

/-- The calls of a table are runs, since they reach the store by requests only. -/
theorem exists_run_of_call (t : Table) (call : TableCall) (s : Store) :
    ∃ acts, call.after t client s = s.run acts := by
  refine call.after_keeps (P := fun s' => ∃ acts, s' = s.run acts) ?_ ⟨[], rfl⟩
  rintro op request - _ ⟨acts, rfl⟩
  exact ⟨acts ++ [Act.send op request], by rw [run_append]; rfl⟩

/-- The states that calls of tables lead to are states of runs. What is shown for runs therefore
holds for them. -/
theorem Reached.exists_run {Q : Attribute → Prop} {partitionKey : String}
    {sortKey : Option String} (reached : Reached Q partitionKey sortKey s) :
    ∃ acts, s = (Store.empty partitionKey sortKey).run acts := by
  induction reached with
  | empty => exact ⟨[], rfl⟩
  | call t _ call _ ih =>
      obtain ⟨acts, rfl⟩ := ih
      obtain ⟨more, after⟩ :=
        exists_run_of_call t call ((Store.empty partitionKey sortKey).run acts)
      exact ⟨acts ++ more, by rw [after, run_append]⟩
  | fail cause _ ih =>
      obtain ⟨acts, rfl⟩ := ih
      exact ⟨acts ++ [Act.fail cause], by rw [run_append]; rfl⟩
  | limit capacity _ ih =>
      obtain ⟨acts, rfl⟩ := ih
      exact ⟨acts ++ [Act.limit capacity], by rw [run_append]; rfl⟩

end Store

end DocumentTable
