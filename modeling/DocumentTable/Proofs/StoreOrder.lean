import DocumentTable.Proofs.Rounding
import DocumentTable.Proofs.StoreRuns
import Mathlib.Data.List.Lex
import Mathlib.Data.String.Basic
import Mathlib.Data.Sum.Order
import Mathlib.Order.WithBot

/-!
# The order of a store

A new item goes before the first one that comes after it. As long as all items have key attributes
of the same kinds, this keeps the items in the order of their keys, and all pages are read in it.

## Main definitions

* `Binary64.value`: the value of a number
* `KeyKind`: the kinds of key attributes that the order knows
* `Store.rank`: the place of an item in the order of keys
* `Store.Typed`: all items have key attributes of given kinds
* `Store.InOrder`: the items stand in the order of their keys

## Main results

* `Store.order_eq_gt_iff`: the store compares items of the same kinds by their ranks
* `Store.InOrder.apply`: a write that leaves items of the same kinds leaves them in order
* `Store.run_distinct_and_inOrder`: different keys and their order along a run

## Design notes

Ranks are compared like words, strings by their characters and numbers by their values. Two keys may
have one rank, such as those of the texts `1` and `1.0`; then they stand in either order.

The kinds have to be right after each single write of a batch or a transaction, since an item of
another kind, for which the order says nothing, would let the next ones go to a wrong place.
-/

namespace DocumentTable

/-! ### Values of numbers -/

namespace Binary64

variable {x y : Binary64}

/-- The value of a number. -/
def value (x : Binary64) : ℚ :=
  if x.negative then -x.absolute else x.absolute

/-- The value in units of the least positive number. It is an integer, which is how numbers are
compared without fractions. -/
theorem cast_units (x : Binary64) : (x.units : ℚ) = x.value * 2 ^ 1074 := by
  obtain ⟨n, shifted⟩ : ∃ n : Nat, x.exponent + 1074 = n :=
    Int.eq_ofNat_of_zero_le (by have := x.canonical.2.1; omega)
  have magnitude : ((x.significand * Nat.pow 2 (x.exponent + 1074).toNat : Int) : ℚ) =
      x.absolute * 2 ^ 1074 := by
    rw [absolute, mul_assoc, ← zpow_natCast (2 : ℚ) 1074, ← zpow_add₀ two_ne_zero, Nat.pow_eq,
      Nat.cast_ofNat, shifted, Int.toNat_natCast, zpow_natCast]
    push_cast
    rfl
  unfold units value
  dsimp only
  split
  · rw [neg_mul, ← magnitude, Int.cast_neg]
  · exact magnitude

/-- Numbers are compared by their values, whatever their texts are. -/
theorem compare_units (x y : Binary64) : compare x.units y.units = compare x.value y.value := by
  have scale : StrictMono fun v : ℚ => v * 2 ^ 1074 :=
    strictMono_mul_right_of_pos (by positivity)
  rw [← cmp_eq_compare, ← cmp_eq_compare, ← Int.cast_strictMono (R := ℚ) |>.cmp_map_eq,
    cast_units, cast_units]
  exact scale.cmp_map_eq _ _

end Binary64

/-! ### Kinds and ranks of keys -/

/-- The kinds of key attributes that the order knows. -/
inductive KeyKind where
  | string
  | number
  deriving DecidableEq

/-- Whether an attribute is of a kind; numbers have to be finite. -/
def KeyKind.admits : KeyKind → Attribute → Bool
  | string, .string _ => true
  | number, .number text =>
    match Binary64.Reading.ofText? text with
    | some (.finite _) => true
    | _ => false
  | _, _ => false

theorem KeyKind.admits_string {a : Attribute} (admits : string.admits a) :
    ∃ text, a = .string text := by
  cases a with
  | string text => exact ⟨text, rfl⟩
  | _ => cases admits

theorem KeyKind.admits_number {a : Attribute} (admits : number.admits a) :
    ∃ text x, a = .number text ∧ Binary64.Reading.ofText? text = some (.finite x) := by
  cases a with
  | number text =>
      unfold KeyKind.admits at admits
      dsimp only at admits
      split at admits
      · next x read => exact ⟨text, x, rfl, read⟩
      · cases admits
  | _ => cases admits

/-- The place of a key attribute in the order; attributes that are no keys come first. -/
def Attribute.rank : Option Attribute → WithBot (ℚ ⊕ₗ String)
  | some (.number text) =>
    match Binary64.Reading.ofText? text with
    | some (.finite x) => (Sum.inlₗ x.value : ℚ ⊕ₗ String)
    | _ => ⊥
  | some (.string text) => (Sum.inrₗ text : ℚ ⊕ₗ String)
  | _ => ⊥

namespace Store

variable {s : Store} {kinds : String → KeyKind} {item a b : Item} {items : List Item}

/-- The place of an item in the order of keys. -/
def rank (s : Store) (item : Item) : List (WithBot (ℚ ⊕ₗ String)) :=
  (s.keyValues item).map Attribute.rank

/-- Attributes of one kind are compared by their ranks. Those of different kinds are compared
otherwise, which is no order of all attributes. -/
theorem orderAttributes_eq_compare {kind : KeyKind} {x y : Attribute} (hx : kind.admits x)
    (hy : kind.admits y) :
    orderAttributes (some x) (some y) =
      compare (Attribute.rank (some x)) (Attribute.rank (some y)) := by
  cases kind with
  | string =>
      obtain ⟨text, rfl⟩ := KeyKind.admits_string hx
      obtain ⟨text', rfl⟩ := KeyKind.admits_string hy
      have mono : StrictMono fun text : String =>
          ((Sum.inrₗ text : ℚ ⊕ₗ String) : WithBot (ℚ ⊕ₗ String)) :=
        WithBot.coe_strictMono.comp Sum.Lex.inr_strictMono
      show compareOfLessAndEq text text' = _
      rw [← LinearOrder.compare_eq_compareOfLessAndEq, ← cmp_eq_compare, ← cmp_eq_compare]
      exact (mono.cmp_map_eq _ _).symm
  | number =>
      obtain ⟨text, v, rfl, read⟩ := KeyKind.admits_number hx
      obtain ⟨text', v', rfl, read'⟩ := KeyKind.admits_number hy
      have mono : StrictMono fun value : ℚ =>
          ((Sum.inlₗ value : ℚ ⊕ₗ String) : WithBot (ℚ ⊕ₗ String)) :=
        WithBot.coe_strictMono.comp Sum.Lex.inl_strictMono
      simp only [orderAttributes, orderNumber, Attribute.rank, read, read', Option.getD_some,
        Binary64.Reading.compare?]
      rw [Binary64.compare_units, ← cmp_eq_compare, ← cmp_eq_compare]
      exact (mono.cmp_map_eq _ _).symm

/-- An item has key attributes of given kinds. -/
def HasKinds (kinds : String → KeyKind) (s : Store) (item : Item) : Prop :=
  ∀ name ∈ s.keyNames, (Dict.get? item name).any (kinds name).admits

/-- All items have key attributes of given kinds. -/
def Typed (kinds : String → KeyKind) (s : Store) : Prop :=
  ∀ item ∈ s.items, s.HasKinds kinds item

instance : Decidable (s.Typed kinds) :=
  inferInstanceAs (Decidable (∀ item ∈ s.items, ∀ name ∈ s.keyNames,
    (Dict.get? item name).any (kinds name).admits))

/-- The store compares items of the same kinds by their ranks, first that of the partition and then
that of the sort key. -/
theorem order_eq_gt_iff (ha : s.HasKinds kinds a) (hb : s.HasKinds kinds b) :
    s.order a b = .gt ↔ s.rank b < s.rank a := by
  unfold HasKinds at ha hb
  unfold order rank keyValues
  generalize s.keyNames = names at ha hb ⊢
  induction names with
  | nil => exact iff_of_false nofun (lt_irrefl _)
  | cons name rest ih =>
      rw [List.forall_mem_cons] at ha hb
      obtain ⟨x, isX, hx⟩ := (Option.any_eq_true _ _).1 ha.1
      obtain ⟨y, isY, hy⟩ := (Option.any_eq_true _ _).1 hb.1
      rw [List.foldr_cons, isX, isY, orderAttributes_eq_compare hx hy, Ordering.then_eq_gt,
        compare_gt_iff_gt, compare_eq_iff_eq, ih ha.2 hb.2]
      simp only [List.map_cons, isX, isY, List.cons_lt_cons_iff, eq_comm]

/-! ### Order of items -/

/-- The items stand in the order of their keys. -/
def InOrder (s : Store) : Prop :=
  (s.items.map s.rank).Pairwise (· ≤ ·)

/-- A new item goes to its place, behind all that are not above it. Every item has to be of the
kinds, for the comparison to be an order. -/
theorem pairwise_insertInOrder (kind : s.HasKinds kinds item)
    (each : ∀ other ∈ items, s.HasKinds kinds other)
    (sorted : (items.map s.rank).Pairwise (· ≤ ·)) :
    ((s.insertInOrder item items).map s.rank).Pairwise (· ≤ ·) := by
  rw [List.pairwise_map] at sorted ⊢
  induction items with
  | nil => exact List.pairwise_singleton _ _
  | cons other rest ih =>
      rw [List.forall_mem_cons] at each
      obtain ⟨first, sorted⟩ := List.pairwise_cons.1 sorted
      rw [insertInOrder]
      split
      · next isGreater =>
          have below := (order_eq_gt_iff each.1 kind).1 isGreater
          refine List.pairwise_cons.2 ⟨?_, List.pairwise_cons.2 ⟨first, sorted⟩⟩
          exact List.forall_mem_cons.2 ⟨below.le, fun x mem => below.le.trans (first x mem)⟩
      · next notGreater =>
          have above := not_lt.1 (mt (order_eq_gt_iff each.1 kind).2 notGreater)
          refine List.pairwise_cons.2 ⟨fun x mem => ?_, ih each.2 sorted⟩
          rcases List.mem_cons.1 ((s.insertInOrder_perm item rest).mem_iff.1 mem) with rfl | mem
          · exact above
          · exact first x mem

/-- An item that takes the place of another one has its rank, since it has its key. -/
theorem rank_replaceFirst (s : Store) (item : Item) (items : List Item) :
    (s.replaceFirst item items).map s.rank = items.map s.rank := by
  have same := congrArg (List.map (List.map Attribute.rank)) (s.keyValues_replaceFirst item items)
  rwa [List.map_map, List.map_map] at same

theorem InOrder.upsert (inOrder : s.InOrder) (typed : (s.upsert item).Typed kinds) :
    (s.upsert item).InOrder := by
  unfold Store.upsert at typed ⊢
  by_cases present : s.contains (s.keyOf item)
  · rw [if_pos present]
    show ((s.replaceFirst item s.items).map s.rank).Pairwise (· ≤ ·)
    rw [rank_replaceFirst]
    exact inOrder
  · rw [if_neg present] at typed ⊢
    have each : ∀ x ∈ item :: s.items, s.HasKinds kinds x :=
      fun x mem => typed x ((s.insertInOrder_perm item s.items).mem_iff.2 mem)
    rw [List.forall_mem_cons] at each
    exact pairwise_insertInOrder each.1 each.2 inOrder

/-- A write that leaves items of the same kinds leaves them in order. It is enough to know this of
the items after the write, as those before it are among them or have gone. -/
theorem InOrder.apply (inOrder : s.InOrder) (w : Write) (typed : (w.apply s).Typed kinds) :
    (w.apply s).InOrder := by
  cases w with
  | clear => exact List.Pairwise.nil
  | put item => exact inOrder.upsert typed
  | remove key => exact inOrder.sublist (List.eraseP_sublist.map _)
  | update key text names values => exact inOrder.upsert typed

/-- Writes each of which leaves items of the same kinds leave them in order, by induction on the
writes. -/
theorem InOrder.foldl (inOrder : s.InOrder) (writes : List Write)
    (typed : ∀ done, done <+: writes → (done.foldl Write.apply s).Typed kinds) :
    (writes.foldl Write.apply s).InOrder := by
  induction writes generalizing s with
  | nil => exact inOrder
  | cons w rest ih =>
      refine ih (inOrder.apply w (typed [w] ⟨rest, rfl⟩)) fun done isDone => ?_
      exact typed (w :: done) (List.cons_prefix_cons.2 ⟨rfl, isDone⟩)

/-! ### Order of pages -/

/-- A scan reads in order, as a page leaves items out and moves none. -/
theorem InOrder.scan (inOrder : s.InOrder) (r : Request.Scan) :
    ((s.scan r).items.map s.rank).Pairwise (· ≤ ·) :=
  inOrder.sublist ((s.page_sublist s.items r.exclusiveStartKey r.limit).map _)

/-- A query reads in order or in the reverse order, which its flag says. -/
theorem InOrder.query (inOrder : s.InOrder) {r : Request.Query} {name : String}
    {value : Attribute}
    (partition : partitionOf r.keyCondition r.names r.values = some (name, value)) :
    ∃ response, s.query r = .ok response ∧
      (response.items.map s.rank).Pairwise
        (if r.forward = some false then (· ≥ ·) else (· ≤ ·)) := by
  refine ⟨_, query_eq_of_partition partition, ?_⟩
  refine List.Pairwise.sublist ((s.page_sublist _ _ _).map _) ?_
  have filtered := inOrder.sublist
    ((s.items.filter_sublist (p := fun item => Dict.get? item name == some value)).map s.rank)
  unfold partitionItems
  by_cases descending : r.forward = some false
  · simp only [descending, decide_true, if_true, List.map_reverse, List.pairwise_reverse]
    exact filtered
  · simp only [descending, decide_false, if_false]
    exact filtered

/-- No two items of a run have the same key. If moreover each write leaves all items with key
attributes of the same kinds, then the items stand in the order of their keys, scans and ascending
queries read in this order, and descending queries in the reverse one. The kinds are asked for of
every prefix of the writes, because one item of another kind would let later ones go to wrong places
even after it is gone. -/
theorem run_distinct_and_inOrder (partitionKey : String) (sortKey : Option String)
    (acts : List Act) :
    let start := empty partitionKey sortKey
    let s := start.run acts
    (s.items.map s.keyValues).Nodup ∧
      ∀ kinds : String → KeyKind,
        (∀ done, done <+: start.writesAlong acts → (done.foldl Write.apply start).Typed kinds) →
        (s.items.map s.rank).Pairwise (· ≤ ·) ∧
          (s.failure = none →
            (∀ r, ∃ response, (client.send .scan r).result s = .ok response ∧
              (response.items.map s.rank).Pairwise (· ≤ ·)) ∧
            ∀ r name value, partitionOf r.keyCondition r.names r.values = some (name, value) →
              ∃ response, (client.send .query r).result s = .ok response ∧
                (response.items.map s.rank).Pairwise
                  (if r.forward = some false then (· ≥ ·) else (· ≤ ·))) := by
  intro start s
  refine ⟨(distinct_empty partitionKey sortKey).run acts, fun kinds typed => ?_⟩
  have inOrder : s.InOrder := by
    have nothing : start.InOrder := List.Pairwise.nil
    -- each write of the run finds items of these kinds, so that it puts its own item in its place
    have folded : ((start.writesAlong acts).foldl Write.apply start.bare).InOrder :=
      nothing.foldl _ typed
    rwa [← run_eq_foldl] at folded
  refine ⟨inOrder, fun calm => ⟨fun r => ?_, fun r name value partition => ?_⟩⟩
  · exact ⟨s.scan r, result_send calm .scan r, inOrder.scan r⟩
  · rw [result_send_query calm]
    exact inOrder.query partition

/-- Numbers are kept by their values, not by their texts. -/
theorem run_distinct_and_inOrder_two_visits :
    let start := empty "visitor" (some "time")
    let visit (time : String) : Act := .send .putItem
      { table := "visits", item := [("time", .number time), ("visitor", .string "ann")] }
    let s := start.run [visit "10", visit "9"]
    let r : Request.Query :=
      { table := "visits", keyCondition := "#0 = :0", names := [("#0", "visitor")],
        values := [(":0", .string "ann")], forward := some false }
    let kinds (name : String) : KeyKind := if name = "time" then .number else .string
    (∀ done, done <+: start.writesAlong [visit "10", visit "9"] →
        (done.foldl Write.apply start).Typed kinds) ∧
      s.failure = none ∧
      partitionOf r.keyCondition r.names r.values = some ("visitor", .string "ann") ∧
      s.items.map (Dict.get? · "time") = [some (.number "9"), some (.number "10")] ∧
      (s.items.map s.rank).Pairwise (· ≤ ·) ∧
      ∃ response, (client.send .query r).result s = .ok response ∧
        (response.items.map s.rank).Pairwise (· ≥ ·) := by
  intro start visit s r kinds
  have typed : ∀ done, done <+: start.writesAlong [visit "10", visit "9"] →
      (done.foldl Write.apply start).Typed kinds := by
    intro done isDone
    rw [← List.mem_inits] at isDone
    revert done
    decide +kernel
  have calm : s.failure = none := rfl
  have partition : partitionOf r.keyCondition r.names r.values =
      some ("visitor", .string "ann") := by
    decide +kernel
  obtain ⟨sorted, reads⟩ :=
    (run_distinct_and_inOrder "visitor" (some "time") [visit "10", visit "9"]).2 kinds typed
  obtain ⟨response, answered, descends⟩ := (reads calm).2 r _ _ partition
  exact ⟨typed, calm, partition, by decide +kernel, sorted, response, answered, descends⟩

end Store

end DocumentTable
