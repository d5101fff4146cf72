import DocumentTable.Number.Binary64
import DocumentTable.Service.Error
import DocumentTable.Wire.Operation

/-!
# A table in memory

The items of a single table as a list in the order of their keys, with what a test may prepare: a
failure of the next call and a limit on batches of writes.

## Main definitions

* `Store`: the items of a table and the requests received so far
* `Store.keyOf`, `Store.hasKey`: the key of an item
* `Store.order`: the order of items by their keys
* `Store.lookup`, `Store.upsert`, `Store.remove`: one item
* `Store.page`: a page of items

## Design notes

Two keys are the same when they agree on each key attribute, where absence counts as a value. The
order knows numbers and strings only; all else is even, so that a new item goes behind the items
before which nothing says it belongs.
-/

namespace DocumentTable

/-- The items of a table in memory. -/
structure Store where
  partitionKey : String
  sortKey : Option String := none
  items : List Item := []
  /-- The requests received so far. -/
  received : List Call := []
  /-- The failure of the next call. -/
  failure : Option ServiceError := none
  /-- How many writes of a batch happen. -/
  writeCapacity : Option Nat := none

namespace Store

/-- A store without items. -/
def empty (partitionKey : String) (sortKey : Option String) : Store :=
  { partitionKey, sortKey }

/-- The names of the key attributes. -/
def keyNames (s : Store) : List String :=
  s.partitionKey :: s.sortKey.toList

/-- The key attributes of an item. -/
def keyOf (s : Store) (item : Item) : Item :=
  Dict.ofList (s.keyNames.filterMap fun name => (Dict.get? item name).map fun a => (name, a))

/-- Whether an item has a key. -/
def hasKey (s : Store) (key item : Item) : Bool :=
  s.keyNames.all fun name => Dict.get? item name == Dict.get? key name

/-- The number that orders the text of a number; texts that are no number count as zero. -/
def orderNumber (text : String) : Binary64.Reading :=
  (Binary64.Reading.ofText? text).getD (.finite (.zero false))

/-- The order of two attributes: numbers by their value, strings by their characters. -/
def orderAttributes : Option Attribute → Option Attribute → Ordering
  | some (.number x), some (.number y) => ((orderNumber x).compare? (orderNumber y)).getD .eq
  | some (.string x), some (.string y) => compareOfLessAndEq x y
  | _, _ => .eq

/-- The order of two items: by the first key attribute that tells them apart. -/
def order (s : Store) (a b : Item) : Ordering :=
  s.keyNames.foldr
    (fun name rest => (orderAttributes (Dict.get? a name) (Dict.get? b name)).then rest) .eq

/-- The item of a key. -/
def lookup (s : Store) (key : Item) : Option Item :=
  s.items.find? (s.hasKey key)

/-- Whether there is an item of a key. -/
def contains (s : Store) (key : Item) : Bool :=
  (s.lookup key).isSome

/-- An item put before the first one that comes after it. -/
def insertInOrder (s : Store) (item : Item) : List Item → List Item
  | [] => [item]
  | other :: rest =>
    if s.order other item = .gt then item :: other :: rest
    else other :: s.insertInOrder item rest

/-- An item put in the place of the first one with its key. -/
def replaceFirst (s : Store) (item : Item) : List Item → List Item
  | [] => []
  | other :: rest =>
    if s.hasKey (s.keyOf item) other then item :: rest else other :: s.replaceFirst item rest

/-- The store with an item, in the place of the one with the same key if there is one. -/
def upsert (s : Store) (item : Item) : Store :=
  { s with
    items :=
      if s.contains (s.keyOf item) then s.replaceFirst item s.items
      else s.insertInOrder item s.items }

/-- The store without the item of a key. -/
def remove (s : Store) (key : Item) : Store :=
  { s with items := s.items.eraseP (s.hasKey key) }

/-- The items behind the first one with a key; all of them when there is none. -/
def after (s : Store) (key : Item) (items : List Item) : List Item :=
  if items.any (s.hasKey key) then (items.dropWhile fun item => !s.hasKey key item).drop 1
  else items

/-- A page of items from a start key on, with the key to go on from when items are left. -/
def page (s : Store) (items : List Item) (start : Option Item) (limit : Option UInt32) :
    List Item × Option Item :=
  let items :=
    match start with
    | some key => s.after key items
    | none => items
  match limit with
  | none => (items, none)
  | some limit =>
    if limit.toNat < items.length then
      let items := items.take limit.toNat
      (items, items.getLast?.map s.keyOf)
    else (items, none)

end Store

end DocumentTable
