import DocumentTable.Proofs.StoreValues

/-!
# The states of a store

A store starts without items, and calls of tables change it. Between calls a failure may be prepared
and batches may be limited.

## Main definitions

* `Store.Reached`: the states of a store that calls of tables lead to
* `Store.threeVisits`: one of these states

## Main results

* `Store.Reached.invariant`: what holds at the start and is kept by writes of tables holds always
* `Store.Reached.distinct`: no two items have the same key
* `Store.Reached.carries`: attributes of items are of the kind that the marshallers write

## Design notes

The tables may differ in their definitions, settings and marshallers. Their key need not be that of
the store. All that may be asked of them is that their marshallers write attributes of some kind.
-/

namespace DocumentTable

namespace Store

/-- The states of a store that calls of tables lead to whose marshallers write attributes of some
kind. -/
inductive Reached (Q : Attribute → Prop) (partitionKey : String) (sortKey : Option String) :
    Store → Prop
  | empty : Reached Q partitionKey sortKey (empty partitionKey sortKey)
  | call {s : Store} (t : Table) (writes : ∀ a, t.marshaller.Writes a → Q a) (call : TableCall) :
      Reached Q partitionKey sortKey s →
      Reached Q partitionKey sortKey (call.after t client s)
  /-- The next call is to fail. -/
  | fail {s : Store} (cause : ServiceError) :
      Reached Q partitionKey sortKey s →
      Reached Q partitionKey sortKey { s with failure := some cause }
  /-- Batches are limited. -/
  | limit {s : Store} (capacity : Nat) :
      Reached Q partitionKey sortKey s →
      Reached Q partitionKey sortKey { s with writeCapacity := some capacity }

variable {Q : Attribute → Prop} {partitionKey : String} {sortKey : Option String} {s : Store}

theorem Reached.mono {Q' : Attribute → Prop} (reached : Reached Q partitionKey sortKey s)
    (weaker : ∀ a, Q a → Q' a) : Reached Q' partitionKey sortKey s := by
  induction reached with
  | empty => exact .empty
  | call t writes call _ ih => exact .call t (fun a written => weaker a (writes a written)) call ih
  | fail cause _ ih => exact .fail cause ih
  | limit capacity _ ih => exact .limit capacity ih

/-- What holds at the start and is kept by the writes of tables holds always. The calls of a table
make no other writes than those of the requests that it builds. -/
theorem Reached.invariant {P : Store → Prop} (contents : OfContents P)
    (start : P (.empty partitionKey sortKey))
    (kept : ∀ t : Table, (∀ a, t.marshaller.Writes a → Q a) → ∀ op r, t.Makes op r →
      ∀ capacity, ∀ w ∈ writesOf capacity op r, ∀ s, P s → P (w.apply s))
    (reached : Reached Q partitionKey sortKey s) : P s := by
  induction reached with
  | empty => exact start
  | call t writes call _ ih =>
      exact call.after_keeps (fun op r makes => keeps_send contents (kept t writes op r makes)) ih
  | fail cause _ ih => exact contents.failure _ _ ih
  | limit capacity _ ih => exact contents.writeCapacity _ _ ih

theorem Reached.keyNames_eq (reached : Reached Q partitionKey sortKey s) :
    s.keyNames = partitionKey :: sortKey.toList := by
  refine reached.invariant (P := fun s => s.keyNames = partitionKey :: sortKey.toList) ?_ rfl ?_
  · exact ⟨fun _ _ same => same, fun _ _ same => same, fun _ _ same => same⟩
  · intro _ _ _ _ _ _ w _ s same
    cases w <;> exact same

/-- No two items have the same key, whatever calls have led to the state. -/
theorem Reached.distinct (reached : Reached Q partitionKey sortKey s) : s.Distinct :=
  reached.invariant distinct_ofContents (distinct_empty _ _)
    fun _ _ _ _ _ _ w _ _ distinct => distinct.apply w

/-- Attributes of items are of the kind that the marshallers write, since a store makes up none. -/
theorem Reached.carries (reached : Reached Q partitionKey sortKey s) : s.Carries Q := by
  refine reached.invariant (carries_ofContents _) (carries_empty _ _ _) ?_
  intro t writes op r makes capacity w mem s carries
  exact carries.apply ((makes.carries capacity w mem).mono writes)

end Store

/-! ### An example -/

/-- A table of visits, those of a visitor in the order of their times. -/
def Table.visits : Table where
  definition := (Definition.new "visits" "visitor").withSortKey "time"

/-- A visit, which has no other attributes. -/
def visit (time : Json) : Json :=
  .object [("time", time), ("visitor", .string "ann")]

namespace Store

variable {partitionKey : String} {sortKey : Option String} {s : Store}

/-- The store after a visit. -/
def visited (s : Store) (time : Json) : Store :=
  (TableCall.put (visit time) {}).after .visits client s

theorem Reached.visited (reached : Reached Marshaller.json.Writes partitionKey sortKey s)
    (time : Json) : Reached Marshaller.json.Writes partitionKey sortKey (s.visited time) :=
  .call .visits (fun _ written => written) _ reached

/-- The store after three visits. -/
def threeVisits : Store :=
  (((empty "visitor" (some "time")).visited (.bool true)).visited .null).visited (.bool false)

theorem reached_threeVisits :
    threeVisits.Reached Marshaller.json.Writes "visitor" (some "time") :=
  ((Reached.empty.visited _).visited _).visited _

end Store

end DocumentTable
