import DocumentTable.Cursor
import DocumentTable.Proofs.AttributeText

/-!
# Tokens of cursors

The entries of a key have no order of their own, and neither have those of the maps in it. Whatever
order they are written in, the token is read as the same cursor.

## Main definitions

* `Attribute.Reordered`, `Item.Reordered`: the same entries in another order, at every depth

## Main results

* `Attribute.Reordered.inOrder_encode`: the document of what is reordered has the same members
* `Item.Reordered.parseBytes_print`: what is written in any order is read in order
* `Base64.urlSafe_encode`: the characters of a text that is safe in addresses
* `Cursor.decode_encode_reordered`: a token is read as the cursor that it was written for

## Design notes

A dictionary is a list in the order of its names. A list with the same entries in another order
stands here for a key whose entries are met in that order when it is written.
-/

namespace DocumentTable

/-! ### Documents in another order -/

namespace Json

/-- Members with different names have each name once in whatever order they stand. -/
theorem unambiguous_of_perm {members members' : Document} {depth : Nat}
    (perm : members'.Perm members) (distinct : (Dict.keys members).Nodup)
    (values : ∀ member ∈ members, Unambiguous depth member.2) :
    Unambiguous (depth + 1) (.object members') :=
  .object ((perm.map Prod.fst).nodup_iff.2 distinct) fun member mem =>
    values member (perm.mem_iff.1 mem)

/-- Members in any order are put in the order of their names, which does not depend on where they
stood. -/
theorem inOrder_of_perm {members members' : Document} (perm : members'.Perm members)
    (sorted : (Dict.mapValues inOrder members).Sorted) :
    inOrder (.object members') = .object (Dict.mapValues inOrder members) := by
  have order : Dict.ofList (Dict.mapValues inOrder members') = Dict.mapValues inOrder members :=
    sorted.ofList_eq (perm.map _)
  rw [inOrder, inOrderMembers_eq_mapValues, order]

/-- A tag puts one container around its payload, in which no name is repeated. -/
theorem Unambiguous.tagged {depth : Nat} {payload : Json} (h : Unambiguous depth payload)
    (tag : String) : Unambiguous (depth + 1) (.object [(tag, payload)]) := by
  refine .object (List.nodup_singleton tag) ?_
  rw [List.forall_mem_singleton]
  exact h

theorem nesting_tagged (tag : String) (payload : Json) :
    (Json.object [(tag, payload)]).nesting = payload.nesting + 1 := by
  rw [nesting, nestingOfMembers, nestingOfMembers, Nat.max_zero]

end Json

/-! ### Attributes in another order -/

namespace Attribute

mutual

/-- An attribute with the entries of its maps in another order. -/
def Reordered : Attribute → Attribute → Prop
  | list items, a' => ∃ items', a' = list items' ∧ ReorderedItems items items'
  | map entries, a' => ∃ entries', a' = map entries' ∧
      ∃ middle, ReorderedEntries entries middle ∧ entries'.Perm middle
  | a, a' => a' = a

/-- The same attributes, with the entries of their maps in another order. -/
def ReorderedItems : List Attribute → List Attribute → Prop
  | [], items' => items' = []
  | a :: rest, items' => ∃ a' rest', items' = a' :: rest' ∧ Reordered a a' ∧
      ReorderedItems rest rest'

/-- The same entries, with those of the maps in them in another order. -/
def ReorderedEntries : List (String × Attribute) → List (String × Attribute) → Prop
  | [], entries' => entries' = []
  | (key, a) :: rest, entries' => ∃ a' rest', entries' = (key, a') :: rest' ∧ Reordered a a' ∧
      ReorderedEntries rest rest'

end

/-- What is reordered inside of entries leaves their names in place. -/
theorem keys_of_reorderedEntries {entries middle : List (String × Attribute)}
    (reordered : ReorderedEntries entries middle) :
    Dict.keys (encodeEntries middle) = Dict.keys entries := by
  induction entries generalizing middle with
  | nil =>
      cases reordered
      rfl
  | cons entry rest ih =>
      obtain ⟨key, a⟩ := entry
      obtain ⟨a', rest', rfl, -, others⟩ := reordered
      rw [encodeEntries, Dict.keys_cons, Dict.keys_cons, ih others]

/-- Entries in another order have the same documents in that order. -/
theorem encodeEntries_perm {entries entries' : List (String × Attribute)}
    (perm : entries'.Perm entries) : (encodeEntries entries').Perm (encodeEntries entries) := by
  rw [encodeEntries_eq_mapValues, encodeEntries_eq_mapValues]
  exact perm.map _

/-- The documents of entries stand under the same names. -/
theorem sorted_encodeEntries {entries : List (String × Attribute)} (sorted : Dict.Sorted entries) :
    Dict.Sorted (encodeEntries entries) := by
  rw [encodeEntries_eq_mapValues]
  exact List.pairwise_map.2 sorted

mutual

/-- The document of what is reordered has the same members, once they are put in order. The
induction is on how it was reordered, together with items and entries. -/
theorem Reordered.inOrder_encode {a a' : Attribute} (reordered : Reordered a a')
    (sorted : a.Sorted) : (encode a').inOrder = encode a := by
  cases a with
  | list items =>
      obtain ⟨items', rfl, each⟩ := reordered
      show Json.object [("L", .array (Json.inOrderItems (encodeItems items')))] = _
      rw [ReorderedItems.inOrder_encodeItems each sorted, encode]
  | map entries =>
      obtain ⟨entries', rfl, middle, each, perm⟩ := reordered
      have same := ReorderedEntries.inOrder_encodeEntries each sorted.2
      show Json.object [("M", Json.inOrder (.object (encodeEntries entries')))] = _
      rw [Json.inOrder_of_perm (encodeEntries_perm perm)
        (same ▸ sorted_encodeEntries sorted.1), same, encode]
  -- the others have no maps in them
  | _ =>
      cases reordered
      exact (Sorted.bounded sorted (Nat.le_refl _)).inOrder_eq

/-- The documents of items that are reordered inside are put in the same order. -/
theorem ReorderedItems.inOrder_encodeItems {items items' : List Attribute}
    (reordered : ReorderedItems items items') (sorted : SortedItems items) :
    Json.inOrderItems (encodeItems items') = encodeItems items := by
  cases items with
  | nil =>
      cases reordered
      rfl
  | cons a rest =>
      obtain ⟨a', rest', rfl, first, others⟩ := reordered
      rw [encodeItems, Json.inOrderItems, first.inOrder_encode sorted.1,
        ReorderedItems.inOrder_encodeItems others sorted.2, encodeItems]

theorem ReorderedEntries.inOrder_encodeEntries {entries middle : List (String × Attribute)}
    (reordered : ReorderedEntries entries middle) (sorted : SortedEntries entries) :
    Dict.mapValues Json.inOrder (encodeEntries middle) = encodeEntries entries := by
  cases entries with
  | nil =>
      cases reordered
      rfl
  | cons entry rest =>
      obtain ⟨key, a⟩ := entry
      obtain ⟨a', rest', rfl, first, others⟩ := reordered
      rw [encodeEntries, encodeEntries, ← ReorderedEntries.inOrder_encodeEntries others sorted.2,
        ← first.inOrder_encode sorted.1]
      rfl

end

mutual

/-- The document of what is reordered has each name once, and nests as deep. Both are what a reader
checks before it looks at the order. -/
theorem Reordered.unambiguous {a a' : Attribute} (reordered : Reordered a a') (sorted : a.Sorted)
    {depth : Nat} (nested : (encode a).nesting ≤ depth) : Json.Unambiguous depth (encode a') := by
  cases a with
  | list items =>
      obtain ⟨items', rfl, each⟩ := reordered
      rw [encode, Json.nesting_tagged, Json.nesting] at nested
      obtain ⟨d, rfl⟩ : ∃ d, depth = d + 2 := ⟨depth - 2, by omega⟩
      have within : ∀ item ∈ encodeItems items, item.nesting ≤ d :=
        Json.nestingOfItems_le.1 (by omega)
      exact .tagged (.array (ReorderedItems.unambiguous each sorted within)) "L"
  | map entries =>
      obtain ⟨entries', rfl, middle, each, perm⟩ := reordered
      rw [encode, Json.nesting_tagged, Json.nesting] at nested
      obtain ⟨d, rfl⟩ : ∃ d, depth = d + 2 := ⟨depth - 2, by omega⟩
      have within : ∀ member ∈ encodeEntries entries, member.2.nesting ≤ d :=
        Json.nestingOfMembers_le.1 (by omega)
      have distinct : (Dict.keys (encodeEntries middle)).Nodup := by
        rw [keys_of_reorderedEntries each]
        exact sorted.1.nodup_keys
      exact .tagged (Json.unambiguous_of_perm (encodeEntries_perm perm) distinct
        (ReorderedEntries.unambiguous each sorted.2 within)) "M"
  -- the others have no maps in them
  | _ =>
      cases reordered
      exact (Sorted.bounded sorted nested).unambiguous

/-- The documents of items that are reordered inside have each name once. -/
theorem ReorderedItems.unambiguous {items items' : List Attribute}
    (reordered : ReorderedItems items items') (sorted : SortedItems items) {depth : Nat}
    (nested : ∀ item ∈ encodeItems items, item.nesting ≤ depth) :
    ∀ item ∈ encodeItems items', Json.Unambiguous depth item := by
  cases items with
  | nil =>
      cases reordered
      nofun
  | cons a rest =>
      obtain ⟨a', rest', rfl, first, others⟩ := reordered
      rw [encodeItems, List.forall_mem_cons] at nested ⊢
      exact ⟨first.unambiguous sorted.1 nested.1,
        ReorderedItems.unambiguous others sorted.2 nested.2⟩

theorem ReorderedEntries.unambiguous {entries middle : List (String × Attribute)}
    (reordered : ReorderedEntries entries middle) (sorted : SortedEntries entries) {depth : Nat}
    (nested : ∀ member ∈ encodeEntries entries, member.2.nesting ≤ depth) :
    ∀ member ∈ encodeEntries middle, Json.Unambiguous depth member.2 := by
  cases entries with
  | nil =>
      cases reordered
      nofun
  | cons entry rest =>
      obtain ⟨key, a⟩ := entry
      obtain ⟨a', rest', rfl, first, others⟩ := reordered
      rw [encodeEntries, List.forall_mem_cons] at nested ⊢
      exact ⟨first.unambiguous sorted.1 nested.1,
        ReorderedEntries.unambiguous others sorted.2 nested.2⟩

end

end Attribute

/-! ### Keys in any order -/

namespace Item

/-- A key with its entries, and those of the maps in it, in another order. -/
def Reordered (key key' : Item) : Prop :=
  Attribute.Reordered (.map key) (.map key')

/-- A key in order: its entries, and those of the maps in it, are in the order of the names. -/
def InOrder (key : Item) : Prop :=
  Attribute.Sorted (.map key)

/-- Where the document of a key is read, and no object in it has a name twice, the key is read. A
key has no tag of its own, so this is not a case of the lemma about attributes. -/
theorem reads_of_distinct {depth : Nat} {key : Item} {bytes rest : List UInt8}
    (h : (Json.distinctReader depth).Reads bytes (codec.encode key) rest) :
    (codec.read depth).Reads bytes key rest := by
  obtain ⟨start, token, _, same, mid, members, finished⟩ := Reader.reads_object.1
    (Json.reads_distinctReaderOver_object.1 ((Json.distinctReader_eq depth) ▸ h))
  cases depth with
  | zero => cases same
  | succ depth =>
      cases same
      exact Reader.reads_object.2 ⟨start, token, _, rfl, mid,
        Attribute.reads_members_of_new (Attribute.reads_of_distinct depth) (d := []) members,
        finished⟩

/-- The document of a key is that of a map without its tag. -/
theorem encode_map (key : Item) :
    Attribute.encode (.map key) = .object [("M", codec.encode key)] := by
  rw [Attribute.encode, Attribute.encodeEntries_eq_mapValues]
  rfl

/-- The document of a key that is reordered has the same members, once they are put in order. -/
theorem Reordered.inOrder_encode {key key' : Item} (reordered : key.Reordered key')
    (sorted : key.InOrder) : (codec.encode key').inOrder = codec.encode key := by
  have same := Attribute.Reordered.inOrder_encode reordered sorted
  rw [encode_map, encode_map] at same
  have members := List.singleton_inj.1 (Json.object.inj same)
  exact (Prod.mk.inj members).2

/-- The document of a key that is reordered has each name once. -/
theorem Reordered.unambiguous {key key' : Item} (reordered : key.Reordered key')
    (sorted : key.InOrder) {depth : Nat} (nested : (codec.encode key).nesting ≤ depth) :
    Json.Unambiguous depth (codec.encode key') := by
  have tagged : (Attribute.encode (.map key)).nesting ≤ depth + 1 := by
    rw [encode_map, Json.nesting_tagged]
    exact Nat.succ_le_succ nested
  have unambiguous := Attribute.Reordered.unambiguous reordered sorted tagged
  rw [encode_map] at unambiguous
  cases unambiguous with
  | object _ values => exact values _ List.mem_cons_self

/-- What is written in any order is read in order. The limit on the nesting is that of readers. -/
theorem Reordered.parseBytes_print {key key' : Item} (reordered : key.Reordered key')
    (sorted : key.InOrder) (nested : (codec.encode key).nesting < 128) :
    codec.parseBytes (bytesOf (codec.print key')) = .ok key := by
  have read :=
    (reordered.unambiguous sorted (Nat.le_of_lt_succ nested)).reads_compact .nil
  rw [List.append_nil, reordered.inOrder_encode sorted] at read
  exact Reader.run_eq_ok.2 ⟨[], reads_of_distinct read, rfl⟩

end Item

/-! ### Tokens -/

namespace Base64

variable {v : Variant}

/-- Without padding, all bytes of a text are symbols. Tokens are written without padding for this
reason. -/
theorem Canonical.forall_mem_alphabet (unpadded : v.padded = false) {symbols : List UInt8}
    (h : Canonical v symbols) : ∀ b ∈ symbols, b ∈ v.alphabet := by
  have fill (lacking : Nat) : v.fill lacking = [] := by
    rw [Variant.fill, unpadded]
    rfl
  induction h with
  | nil => exact List.forall_mem_nil _
  | one ha hb =>
      rw [fill]
      simp only [List.append_nil, List.forall_mem_cons]
      exact ⟨List.mem_of_getElem? ha, List.mem_of_getElem? hb, List.forall_mem_nil _⟩
  | two ha hb hc =>
      rw [fill]
      simp only [List.append_nil, List.forall_mem_cons]
      exact ⟨List.mem_of_getElem? ha, List.mem_of_getElem? hb, List.mem_of_getElem? hc,
        List.forall_mem_nil _⟩
  | three ha hb hc hd _ ih =>
      simp only [List.forall_mem_cons]
      exact ⟨List.mem_of_getElem? ha, List.mem_of_getElem? hb, List.mem_of_getElem? hc,
        List.mem_of_getElem? hd, ih⟩

/-- A text that is safe in addresses is made of letters, digits, hyphens and underscores. -/
theorem urlSafe_encode (bytes : List UInt8) :
    ∀ c ∈ (encode .urlSafe bytes).toList, c.isAlphanum ∨ c = '-' ∨ c = '_' := by
  have symbols : ∀ b ∈ Variant.alphabet .urlSafe,
      (Char.ofNat b.toNat).isAlphanum ∨ Char.ofNat b.toNat = '-' ∨ Char.ofNat b.toNat = '_' := by
    decide +kernel
  intro c mem
  rw [encode, String.toList_ofList] at mem
  obtain ⟨b, isSymbol, rfl⟩ := List.mem_map.1 mem
  exact symbols b ((canonical_encodeBytes bytes).forall_mem_alphabet rfl b isSymbol)

end Base64

namespace Cursor

/-- The token of a cursor is safe in addresses, and it is read as the cursor, in whatever order the
entries of its key and of the maps in it are written. The cursor itself is in order, as keys are
wherever they come from, and it nests less deep than readers go. -/
theorem decode_encode_reordered {key key' : Item} (sorted : key.InOrder)
    (nested : (Item.codec.encode key).nesting < 128) (reordered : key.Reordered key') :
    (∀ c ∈ (encode ⟨key'⟩).toList, c.isAlphanum ∨ c = '-' ∨ c = '_') ∧
      decode (encode ⟨key'⟩) = .ok ⟨key⟩ := by
  refine ⟨Base64.urlSafe_encode _, ?_⟩
  unfold decode encode
  rw [Base64.decode_eq_ok.2 rfl]
  dsimp only
  rw [reordered.parseBytes_print sorted nested]

/-- Two entries, one of them a map of two entries, all written in the opposite order. -/
theorem decode_encode_reversed :
    let key : Item := [("a", .map [("x", .bool true), ("y", .null true)]), ("b", .binary [0xFF])]
    let key' : Item := [("b", .binary [0xFF]), ("a", .map [("y", .null true), ("x", .bool true)])]
    key.InOrder ∧ (Item.codec.encode key).nesting < 128 ∧ key.Reordered key' ∧
      encode ⟨key'⟩ ≠ encode ⟨key⟩ ∧ decode (encode ⟨key'⟩) = .ok ⟨key⟩ := by
  intro key key'
  have sorted : key.InOrder := ⟨List.pairwise_pair.2 (by decide),
    ⟨List.pairwise_pair.2 (by decide), trivial, trivial, trivial⟩, trivial, trivial⟩
  have nested : (Item.codec.encode key).nesting < 128 := by decide
  -- first the map in its place, then the entries themselves
  have inner : Attribute.Reordered (.map [("x", .bool true), ("y", .null true)])
      (.map [("y", .null true), ("x", .bool true)]) :=
    ⟨_, rfl, _, ⟨_, _, rfl, rfl, _, _, rfl, rfl, rfl⟩, .swap _ _ _⟩
  have reordered : key.Reordered key' :=
    ⟨_, rfl, _, ⟨_, _, rfl, inner, _, _, rfl, rfl, rfl⟩, .swap _ _ _⟩
  exact ⟨sorted, nested, reordered, by decide, (decode_encode_reordered sorted nested reordered).2⟩

end Cursor

end DocumentTable
