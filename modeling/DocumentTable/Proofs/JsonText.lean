import DocumentTable.Proofs.NumberText
import DocumentTable.Proofs.Parser

/-!
# Documents in texts

What is printed is read back.

## Main definitions

* `Json.Bounded`: values without numbers, with objects in the order of their names, nested to a
  limit
* `Json.Unambiguous`: the same with objects in any order
* `Json.inOrder`: a value with its objects in the order of their names

## Main results

* `Json.reads_quote`: a string literal is read as the text that it was printed for
* `Json.Unambiguous.reads_compact`: the text of such a value is read as the value in order
* `Json.Bounded.reads_compact`: the text of a value in order is read as the value

## Design notes

Numbers are left out: the text of a number ends where the next byte cannot continue it, while all
other texts end by themselves.
-/

namespace DocumentTable

open Reader (Reads requireToken)

namespace Reader

/-- A token that starts with no blank is found where the reader stands, and nothing is consumed. -/
theorem reads_requireToken_cons {b : UInt8} (h : isBlank b = false) (atEnd : Malformed)
    (rest : List UInt8) : (requireToken atEnd).Reads (b :: rest) b (b :: rest) := by
  refine reads_requireToken.2 ⟨?_, rfl⟩
  exact List.dropWhile_cons_of_neg (by simp [h])

/-- A word is read from its bytes, by induction on them. -/
theorem reads_word (expected rest : List UInt8) :
    (word expected).Reads (expected ++ rest) () rest := by
  induction expected with
  | nil => exact reads_pure.2 ⟨rfl, rfl⟩
  | cons b expected ih =>
      refine reads_bind.2 ⟨_, _, reads_peek.2 ⟨rfl, rfl⟩, ?_⟩
      show Reads (if b = b then _ else _) _ _ _
      rw [if_pos rfl]
      exact reads_bind.2 ⟨(), expected ++ rest, reads_advance.2 rfl, ih⟩

/-- A word is read behind its first letter, which the choice between kinds of values has looked at.
-/
theorem reads_advance_word (b : UInt8) (tail rest : List UInt8) :
    Reads (do advance; word tail) (b :: tail ++ rest) () rest :=
  reads_bind.2 ⟨(), tail ++ rest, reads_advance.2 rfl, reads_word tail rest⟩

end Reader

namespace Json

/-! ### String literals -/

/-- Bytes that are read as the rest of a string literal, given fuel for each of them, where
`unescape` reads what follows a backslash. -/
def ReadsLiteral (unescape : Reader (List UInt8)) (bytes text rest : List UInt8) : Prop :=
  ∀ fuel, bytes.length < fuel → (Reader.stringBytes unescape fuel).Reads bytes text rest

theorem reads_requireByte (b : UInt8) (rest : List UInt8) :
    Reader.requireByte.Reads (b :: rest) b (b :: rest) :=
  Reader.reads_bind.2 ⟨_, _, Reader.reads_peek.2 ⟨rfl, rfl⟩, Reader.reads_pure.2 ⟨rfl, rfl⟩⟩

section Literals

variable {unescape : Reader (List UInt8)} {bytes text rest : List UInt8}

/-- The quotation mark ends a literal, and adds nothing to its text. -/
theorem ReadsLiteral.quote (rest : List UInt8) : ReadsLiteral unescape (0x22 :: rest) [] rest := by
  intro fuel enough
  obtain ⟨n, rfl⟩ := Nat.exists_eq_succ_of_ne_zero (Nat.ne_zero_of_lt enough)
  refine Reader.reads_bind.2 ⟨_, _, reads_requireByte _ _, ?_⟩
  exact Reader.reads_bind.2 ⟨(), rest, Reader.reads_advance.2 rfl, Reader.reads_pure.2 ⟨rfl, rfl⟩⟩

/-- A byte that stands for itself. -/
theorem ReadsLiteral.cons (h : ReadsLiteral unescape bytes text rest) {b : UInt8}
    (notQuote : b ≠ 0x22) (notEscape : b ≠ 0x5C) (notControl : ¬b < 0x20) :
    ReadsLiteral unescape (b :: bytes) (b :: text) rest := by
  intro fuel enough
  obtain ⟨n, rfl⟩ := Nat.exists_eq_succ_of_ne_zero (Nat.ne_zero_of_lt enough)
  refine Reader.reads_bind.2 ⟨_, _, reads_requireByte _ _, ?_⟩
  rw [if_neg notQuote, if_neg notEscape, if_neg notControl]
  refine Reader.reads_bind.2 ⟨(), bytes, Reader.reads_advance.2 rfl, ?_⟩
  exact Reader.reads_map.2 ⟨text, h n (Nat.lt_of_succ_lt_succ enough), rfl⟩

/-- An escape and what it stands for. The bytes of the escape may be more or fewer than the bytes of
the text. -/
theorem ReadsLiteral.escape (h : ReadsLiteral unescape bytes text rest) {escaped part : List UInt8}
    (reads : unescape.Reads (escaped ++ bytes) part bytes) :
    ReadsLiteral unescape (0x5C :: (escaped ++ bytes)) (part ++ text) rest := by
  intro fuel enough
  obtain ⟨n, rfl⟩ := Nat.exists_eq_succ_of_ne_zero (Nat.ne_zero_of_lt enough)
  refine Reader.reads_bind.2 ⟨_, _, reads_requireByte _ _, ?_⟩
  refine Reader.reads_bind.2 ⟨(), escaped ++ bytes, Reader.reads_advance.2 rfl, ?_⟩
  refine Reader.reads_bind.2 ⟨part, bytes, reads, ?_⟩
  refine Reader.reads_map.2 ⟨text, h n ?_, rfl⟩
  rw [List.length_cons, List.length_append] at enough
  omega

/-- Bytes that stand for themselves may be read together. In a printed text these are the characters
that need no escape. -/
theorem ReadsLiteral.append (h : ReadsLiteral unescape bytes text rest) {plain : List UInt8}
    (notQuote : (0x22 : UInt8) ∉ plain) (notEscape : (0x5C : UInt8) ∉ plain)
    (notControl : ∀ b ∈ plain, ¬b < 0x20) :
    ReadsLiteral unescape (plain ++ bytes) (plain ++ text) rest := by
  induction plain with
  | nil => exact h
  | cons b plain ih =>
      rw [List.mem_cons, not_or] at notQuote notEscape
      rw [List.forall_mem_cons] at notControl
      exact (ih notQuote.2 notEscape.2 notControl.2).cons (Ne.symm notQuote.1)
        (Ne.symm notEscape.1) notControl.1

end Literals

/-- The bytes that one character of a string literal is written as. -/
def quoteBytes (c : Char) : List UInt8 :=
  (quoteChar c).flatMap String.utf8EncodeChar

/-- A printed literal consists of a quotation mark, of what each character is printed as, and of
another quotation mark. -/
theorem bytesOf_quote (s : String) :
    bytesOf (quote s) = 0x22 :: (s.toList.flatMap quoteBytes ++ [0x22]) := by
  rw [quote, bytesOf_ofList, List.cons_append, List.flatMap_cons, List.flatMap_append,
    List.flatMap_assoc]
  rfl

/-- A digit that was printed in lower case is read as its number, which ties the printed escapes to
the reader. -/
theorem hexValue?_digitChar {n : Nat} (h : n < 16) :
    Reader.hexValue? (UInt8.ofNat (Nat.digitChar n).toNat) = some n := by
  have all : ∀ n : Fin 16, Reader.hexValue? (UInt8.ofNat (Nat.digitChar n).toNat) = some n.val := by
    decide
  exact all ⟨n, h⟩

/-- The digits are among the first characters, whose bytes are their numbers. -/
theorem digitChar_lt {n : Nat} (h : n < 16) : (Nat.digitChar n).toNat < 128 := by
  have all : ∀ n : Fin 16, (Nat.digitChar n).toNat < 128 := by decide
  exact all ⟨n, h⟩

/-- The bytes that the reader makes of the number of a character are those of the character. -/
theorem charBytes_toNat (c : Char) : Reader.charBytes c.toNat = String.utf8EncodeChar c := by
  rw [Reader.charBytes, Char.ofNat_toNat, String.singleton_eq_ofList, bytesOf_ofList]
  exact List.append_nil _

/-- A byte of one of the first characters occurs in the bytes of that character only. A quotation
mark in the bytes of a text is therefore a character of the text, not a part of another one. -/
theorem eq_of_mem_utf8EncodeChar {c : Char} {b : UInt8} (h : b.toNat < 128)
    (mem : b ∈ String.utf8EncodeChar c) : c = Char.ofNat b.toNat := by
  by_cases ascii : c.toNat < 128
  · rw [utf8EncodeChar_ascii ascii, List.mem_singleton] at mem
    rw [mem, UInt8.toNat_ofNat', Nat.mod_eq_of_lt (by omega), Char.ofNat_toNat]
  · have := le_of_mem_utf8EncodeChar (Nat.not_lt.1 ascii) mem
    omega

/-- How a character is written in a string literal: by a short escape, by the digits of its number,
or as it is. -/
inductive QuotedAs (c : Char) : List UInt8 → Prop
  | short {b x : UInt8} : b ≠ 0x75 → Reader.shortEscape? b = some x →
      String.utf8EncodeChar c = [x] → QuotedAs c [0x5C, b]
  | control {digits : List UInt8} : c.toNat < 0x20 →
      (∀ bytes, Reader.readHex4.Reads (digits ++ bytes) c.toNat bytes) →
      QuotedAs c (0x5C :: 0x75 :: digits)
  | plain : (0x22 : UInt8) ∉ String.utf8EncodeChar c → (0x5C : UInt8) ∉ String.utf8EncodeChar c →
      (∀ b ∈ String.utf8EncodeChar c, ¬b < 0x20) → QuotedAs c (String.utf8EncodeChar c)

/-- The number of a control character is read from its digits. -/
theorem quotedAs_control {c : Char} (h : c.toNat < 0x20) :
    QuotedAs c (['\\', 'u', '0', '0', Nat.digitChar (c.toNat / 16),
      Nat.digitChar (c.toNat % 16)].flatMap String.utf8EncodeChar) := by
  have high : c.toNat / 16 < 16 := by omega
  have low : c.toNat % 16 < 16 := by omega
  simp only [List.flatMap_cons, utf8EncodeChar_ascii (digitChar_lt high),
    utf8EncodeChar_ascii (digitChar_lt low)]
  refine .control h fun bytes => ?_
  have zero : Reader.hexValue? 0x30 = some 0 := rfl
  have whole : ((0 * 16 + 0) * 16 + c.toNat / 16) * 16 + c.toNat % 16 = c.toNat := by omega
  show Reader.readHex4 (0x30 :: 0x30 :: UInt8.ofNat (Nat.digitChar (c.toNat / 16)).toNat ::
    UInt8.ofNat (Nat.digitChar (c.toNat % 16)).toNat :: bytes) = _
  rw [Reader.readHex4, zero, hexValue?_digitChar high, hexValue?_digitChar low]
  exact congrArg (fun n => Except.ok (n, bytes)) whole

/-- Each character is read back from what it is printed as, whether it stands for itself, has a
short escape or is printed by its number. -/
theorem quotedAs (c : Char) : QuotedAs c (quoteBytes c) := by
  by_cases short : c ∈ ['"', '\\', '\x08', '\x0c', '\n', '\r', '\t']
  · simp only [List.mem_cons, List.not_mem_nil, or_false] at short
    rcases short with rfl | rfl | rfl | rfl | rfl | rfl | rfl
    all_goals exact .short (by decide) rfl rfl
  · simp only [List.mem_cons, List.not_mem_nil, or_false, not_or] at short
    obtain ⟨notQuote, notEscape, notB, notF, notN, notR, notT⟩ := short
    rw [Json.quoteBytes, quoteChar, if_neg notQuote, if_neg notEscape, if_neg notB, if_neg notF,
      if_neg notN, if_neg notR, if_neg notT]
    by_cases control : c.toNat < 0x20
    · rw [if_pos control]
      exact quotedAs_control control
    · rw [if_neg control, List.flatMap_singleton]
      refine .plain ?_ ?_ ?_
      · exact fun mem => notQuote (eq_of_mem_utf8EncodeChar (by decide) mem)
      · exact fun mem => notEscape (eq_of_mem_utf8EncodeChar (by decide) mem)
      · intro b mem small
        have lt : b.toNat < 0x20 := UInt8.lt_iff_toNat_lt.1 small
        rw [eq_of_mem_utf8EncodeChar (by omega) mem, toNat_ofNat_ascii (by omega)] at control
        exact control lt

/-- A character is read from what it is written as, in front of a literal that is read. -/
theorem ReadsLiteral.quoteBytes {bytes text rest : List UInt8}
    (h : ReadsLiteral Reader.readEscape bytes text rest) (c : Char) :
    ReadsLiteral Reader.readEscape (quoteBytes c ++ bytes) (String.utf8EncodeChar c ++ text)
      rest := by
  have quoted := quotedAs c
  generalize Json.quoteBytes c = written at quoted ⊢
  cases quoted with
  | @short b x notNumeric short same =>
      have reads : Reader.readEscape.Reads ([b] ++ bytes) (String.utf8EncodeChar c) bytes := by
        refine Reader.reads_bind.2 ⟨_, _, reads_requireByte _ _, ?_⟩
        refine Reader.reads_bind.2 ⟨(), bytes, Reader.reads_advance.2 rfl, ?_⟩
        rw [if_neg notNumeric, short]
        exact Reader.reads_pure.2 ⟨same.symm, rfl⟩
      exact h.escape reads
  | @control digits small four =>
      have reads : Reader.readEscape.Reads (0x75 :: digits ++ bytes) (String.utf8EncodeChar c)
          bytes := by
        refine Reader.reads_bind.2 ⟨_, _, reads_requireByte _ _, ?_⟩
        refine Reader.reads_bind.2 ⟨(), digits ++ bytes, Reader.reads_advance.2 rfl, ?_⟩
        rw [if_pos rfl]
        refine Reader.reads_bind.2 ⟨_, _, four bytes, ?_⟩
        rw [if_neg (by simp; omega), if_pos (by simp; omega)]
        exact Reader.reads_pure.2 ⟨charBytes_toNat c, rfl⟩
      exact h.escape reads
  | plain notQuote notEscape notControl => exact h.append notQuote notEscape notControl

/-- A string literal is read as the text that it was printed for, by induction on the characters
from the last one to the first. -/
theorem reads_quote (s : String) (rest : List UInt8) :
    Reader.readString.Reads (bytesOf (quote s) ++ rest) s rest := by
  have literal : ReadsLiteral Reader.readEscape (s.toList.flatMap quoteBytes ++ 0x22 :: rest)
      (bytesOf s) rest := by
    rw [← String.ofList_toList (s := s), bytesOf_ofList, String.toList_ofList]
    induction s.toList with
    | nil => exact .quote rest
    | cons c chars ih =>
        rw [List.flatMap_cons, List.flatMap_cons, List.append_assoc]
        exact ih.quoteBytes c
  rw [bytesOf_quote, List.cons_append, List.append_assoc]
  refine Reader.reads_bind.2 ⟨(), _, Reader.reads_advance.2 rfl, ?_⟩
  refine Reader.reads_bind.2 ⟨_, _, Reader.reads_remaining.2 ⟨rfl, rfl⟩, ?_⟩
  refine Reader.reads_bind.2 ⟨_, _, literal _ (Nat.lt_succ_self _), ?_⟩
  rw [textOf?_bytesOf]
  exact Reader.reads_pure.2 ⟨rfl, rfl⟩

/-! ### Values -/

/-- Values without numbers, whose objects have their members in the order of the names and which
nest containers to a limit. -/
inductive Bounded : (depth : Nat) → Json → Prop
  | null {depth : Nat} : Bounded depth null
  | bool {depth : Nat} (b : Bool) : Bounded depth (bool b)
  | string {depth : Nat} (s : String) : Bounded depth (string s)
  | array {depth : Nat} {items : List Json} : (∀ item ∈ items, Bounded depth item) →
      Bounded (depth + 1) (array items)
  | object {depth : Nat} {members : Document} : members.Sorted →
      (∀ member ∈ members, Bounded depth member.2) → Bounded (depth + 1) (object members)

/-- Values without numbers, whose objects have each name once and which nest containers to a
limit. -/
inductive Unambiguous : (depth : Nat) → Json → Prop
  | null {depth : Nat} : Unambiguous depth null
  | bool {depth : Nat} (b : Bool) : Unambiguous depth (bool b)
  | string {depth : Nat} (s : String) : Unambiguous depth (string s)
  | array {depth : Nat} {items : List Json} : (∀ item ∈ items, Unambiguous depth item) →
      Unambiguous (depth + 1) (array items)
  | object {depth : Nat} {members : Document} : (Dict.keys members).Nodup →
      (∀ member ∈ members, Unambiguous depth member.2) → Unambiguous (depth + 1) (object members)

mutual

/-- The value with the members of all objects in the order of their names. -/
def inOrder : Json → Json
  | .array items => .array (inOrderItems items)
  | .object members => .object (Dict.ofList (inOrderMembers members))
  | other => other

/-- The values with the members of all objects in the order of their names. -/
def inOrderItems : List Json → List Json
  | [] => []
  | item :: rest => inOrder item :: inOrderItems rest

/-- The members with those of all objects in their values in the order of their names. -/
def inOrderMembers : List (String × Json) → List (String × Json)
  | [] => []
  | (key, value) :: rest => (key, inOrder value) :: inOrderMembers rest

end

theorem inOrderItems_eq_map (items : List Json) : inOrderItems items = items.map inOrder := by
  induction items with
  | nil => rfl
  | cons item rest ih => rw [inOrderItems, ih, List.map_cons]

/-- What the members of an object hold is put in order under the same names. -/
theorem inOrderMembers_eq_mapValues (members : List (String × Json)) :
    inOrderMembers members = Dict.mapValues inOrder members := by
  induction members with
  | nil => rfl
  | cons member rest ih =>
      rw [inOrderMembers, ih]
      rfl

/-- A value whose objects are in order has each name once. -/
theorem Bounded.unambiguous {depth : Nat} {j : Json} (h : Bounded depth j) :
    Unambiguous depth j := by
  induction h with
  | null => exact .null
  | bool b => exact .bool b
  | string s => exact .string s
  | array _ ih => exact .array ih
  | object sorted _ ih => exact .object sorted.nodup_keys ih

/-- A value whose objects are in order is not changed by putting them in order, so that reading
gives back the value itself. -/
theorem Bounded.inOrder_eq {depth : Nat} {j : Json} (h : Bounded depth j) : j.inOrder = j := by
  induction h with
  | null => rfl
  | bool b => rfl
  | string s => rfl
  | array _ ih =>
      rw [inOrder, inOrderItems_eq_map, List.map_congr_left (g := id) ih, List.map_id]
  | @object _ members sorted _ ih =>
      have same : Dict.mapValues inOrder members = members := by
        refine (List.map_congr_left (g := id) fun member mem => ?_).trans (List.map_id members)
        exact Prod.ext rfl (ih member mem)
      rw [inOrder, inOrderMembers_eq_mapValues, same, sorted.ofList_eq (.refl _)]

mutual

/-- The number of containers inside one another. -/
def nesting : Json → Nat
  | .array items => nestingOfItems items + 1
  | .object members => nestingOfMembers members + 1
  | _ => 0

/-- The number of containers inside one another in a list of values. -/
def nestingOfItems : List Json → Nat
  | [] => 0
  | item :: rest => max (nesting item) (nestingOfItems rest)

/-- The number of containers inside one another in the values of members. -/
def nestingOfMembers : List (String × Json) → Nat
  | [] => 0
  | (_, value) :: rest => max (nesting value) (nestingOfMembers rest)

end

/-- The nesting of items is that of the deepest one, if there is any. -/
theorem nestingOfItems_le {items : List Json} {depth : Nat} :
    nestingOfItems items ≤ depth ↔ ∀ item ∈ items, item.nesting ≤ depth := by
  induction items with
  | nil => simp [nestingOfItems]
  | cons item rest ih => simp [nestingOfItems, ih]

/-- The nesting of members is that of the deepest value, if there is any. -/
theorem nestingOfMembers_le {members : List (String × Json)} {depth : Nat} :
    nestingOfMembers members ≤ depth ↔ ∀ member ∈ members, member.2.nesting ≤ depth := by
  induction members with
  | nil => simp [nestingOfMembers]
  | cons member rest ih => simp [nestingOfMembers, ih]

/-- Arrays and objects are within a limit when what they hold is within the limit below it. The
items may have limits of their own, which depend on how deep they are. -/
theorem Bounded.array_of_nesting {items : List Json} {depth : Nat}
    (nested : (Json.array items).nesting ≤ depth)
    (h : ∀ item ∈ items, ∀ d, item.nesting ≤ d → Bounded d item) :
    Bounded depth (.array items) := by
  rw [nesting] at nested
  obtain ⟨d, rfl⟩ := Nat.exists_eq_add_of_le' (Nat.le_of_add_left_le nested)
  exact .array fun item mem =>
    h item mem d (nestingOfItems_le.1 (Nat.le_of_add_le_add_right nested) item mem)

/-- An object is within a limit when its members are in order and their values are within the limit
below it. -/
theorem Bounded.object_of_nesting {members : Document} {depth : Nat} (sorted : members.Sorted)
    (nested : (Json.object members).nesting ≤ depth)
    (h : ∀ member ∈ members, ∀ d, member.2.nesting ≤ d → Bounded d member.2) :
    Bounded depth (.object members) := by
  rw [nesting] at nested
  obtain ⟨d, rfl⟩ := Nat.exists_eq_add_of_le' (Nat.le_of_add_left_le nested)
  exact .object sorted fun member mem =>
    h member mem d (nestingOfMembers_le.1 (Nat.le_of_add_le_add_right nested) member mem)

/-- A value with each name once is within any limit that its nesting is within. The limit that the
hypothesis speaks of may be a larger one. -/
theorem Unambiguous.of_nesting {d depth : Nat} {j : Json} (h : Unambiguous d j)
    (nested : j.nesting ≤ depth) : Unambiguous depth j := by
  induction h generalizing depth with
  | null => exact .null
  | bool b => exact .bool b
  | string s => exact .string s
  | array _ ih =>
      rw [nesting] at nested
      obtain ⟨d, rfl⟩ := Nat.exists_eq_add_of_le' (Nat.le_of_add_left_le nested)
      exact .array fun item mem =>
        ih item mem (nestingOfItems_le.1 (Nat.le_of_add_le_add_right nested) item mem)
  | object distinct _ ih =>
      rw [nesting] at nested
      obtain ⟨d, rfl⟩ := Nat.exists_eq_add_of_le' (Nat.le_of_add_left_le nested)
      exact .object distinct fun member mem =>
        ih member mem (nestingOfMembers_le.1 (Nat.le_of_add_le_add_right nested) member mem)

/-- An array is printed as its items between brackets; what follows is kept apart, as a reader stops
there. -/
theorem bytesOf_array (items : List Json) (rest : List UInt8) :
    bytesOf (compact (array items)) ++ rest =
      0x5B :: (bytesOf (compactItems items) ++ 0x5D :: rest) := by
  rw [compact, bytesOf_append, bytesOf_append, List.append_assoc, List.append_assoc]
  rfl

/-- An object is printed as its members between braces; what follows is kept apart, as a reader
stops there. -/
theorem bytesOf_object (members : Document) (rest : List UInt8) :
    bytesOf (compact (object members)) ++ rest =
      0x7B :: (bytesOf (compactMembers members) ++ 0x7D :: rest) := by
  rw [compact, bytesOf_append, bytesOf_append, List.append_assoc, List.append_assoc]
  rfl

/-- The text of a value starts with no blank and no bracket that closes, so that a reader knows an
item from the end of an array. The text of null is the only one that starts with its letter, which
is how an optional value is read. -/
theorem exists_compact_eq_cons (j : Json) :
    ∃ b tail, bytesOf (compact j) = b :: tail ∧ Reader.isBlank b = false ∧ b ≠ 0x5D ∧
      (b = 0x6E → j = null) := by
  cases j with
  | null => exact ⟨_, _, rfl, rfl, by decide, fun _ => rfl⟩
  | bool b =>
      cases b with
      | true => exact ⟨_, _, rfl, rfl, by decide, fun letter => absurd letter (by decide)⟩
      | false => exact ⟨_, _, rfl, rfl, by decide, fun letter => absurd letter (by decide)⟩
  | number n =>
      obtain ⟨negative, unsigned, text, isUnsigned⟩ := exists_isUnsigned n
      obtain ⟨b, tail, bytes, notBlank, first, -⟩ := isUnsigned.exists_first negative []
      rw [List.append_nil, ← text] at bytes
      refine ⟨b, tail, bytes, notBlank, ?_⟩
      rcases first with rfl | digit
      · exact ⟨by decide, fun letter => absurd letter (by decide)⟩
      · refine ⟨?_, ?_⟩
        · rintro rfl
          exact absurd digit (by decide)
        · rintro rfl
          exact absurd digit (by decide)
  | string s =>
      exact ⟨_, _, bytesOf_quote s, rfl, by decide, fun letter => absurd letter (by decide)⟩
  | array items =>
      have start := bytesOf_array items []
      rw [List.append_nil] at start
      exact ⟨_, _, start, rfl, by decide, fun letter => absurd letter (by decide)⟩
  | object members =>
      have start := bytesOf_object members []
      rw [List.append_nil] at start
      exact ⟨_, _, start, rfl, by decide, fun letter => absurd letter (by decide)⟩

/-- Whether a reader reads a value from the text of a document, wherever that text may stand. -/
def ReadsText {α : Type} (reader : Reader α) (j : Json) (a : α) : Prop :=
  ∀ ⦃rest⦄, Delimited rest → reader.Reads (bytesOf (compact j) ++ rest) a rest

/-! ### Items -/

/-- A closing bracket means that no item follows, behind the first position as well as there. -/
theorem reads_nextItem_end (first : Bool) (rest : List UInt8) :
    (Reader.nextItem first).Reads (0x5D :: rest) false (0x5D :: rest) :=
  Reader.reads_bind.2 ⟨_, _, Reader.reads_requireToken_cons rfl _ rest,
    Reader.reads_pure.2 ⟨rfl, rfl⟩⟩

theorem reads_nextItem_first (j : Json) (rest : List UInt8) :
    (Reader.nextItem true).Reads (bytesOf (compact j) ++ rest) true
      (bytesOf (compact j) ++ rest) := by
  obtain ⟨b, tail, bytes, notBlank, notEnd, -⟩ := exists_compact_eq_cons j
  rw [bytes, List.cons_append]
  refine Reader.reads_bind.2 ⟨_, _, Reader.reads_requireToken_cons notBlank _ _, ?_⟩
  rw [if_neg notEnd]
  exact Reader.reads_pure.2 ⟨rfl, rfl⟩

/-- Each further item has a comma in front of it, which is consumed. -/
theorem reads_nextItem_comma (j : Json) (rest : List UInt8) :
    (Reader.nextItem false).Reads (0x2C :: (bytesOf (compact j) ++ rest)) true
      (bytesOf (compact j) ++ rest) := by
  obtain ⟨b, tail, bytes, notBlank, notEnd, -⟩ := exists_compact_eq_cons j
  rw [bytes, List.cons_append]
  refine Reader.reads_bind.2 ⟨_, _, Reader.reads_requireToken_cons rfl _ _, ?_⟩
  refine Reader.reads_bind.2 ⟨(), b :: (tail ++ rest), Reader.reads_advance.2 rfl, ?_⟩
  refine Reader.reads_bind.2 ⟨_, _, Reader.reads_requireToken_cons notBlank _ _, ?_⟩
  rw [if_neg notEnd]
  exact Reader.reads_pure.2 ⟨rfl, rfl⟩

/-- The items that follow the first one, each after its comma. -/
def followingItems (items : List Json) : List UInt8 :=
  items.flatMap fun item => 0x2C :: bytesOf (compact item)

/-- The bytes of the items behind the first one, unfolded by one item. -/
theorem followingItems_cons (item : Json) (items : List Json) :
    followingItems (item :: items) = 0x2C :: (bytesOf (compact item) ++ followingItems items) :=
  rfl

/-- The bytes of all items are those of the first one and of the items that follow it. -/
theorem bytesOf_compactItems (item : Json) (items : List Json) :
    bytesOf (compactItems (item :: items)) = bytesOf (compact item) ++ followingItems items := by
  induction items generalizing item with
  | nil => exact (List.append_nil _).symm
  | cons next rest ih =>
      rw [compactItems, bytesOf_append, bytesOf_append, ih, List.append_assoc]
      rfl

/-- What follows an item is a comma or a bracket. No number goes on there, so the item before it
ends where it should. -/
theorem delimited_followingItems (items : List Json) (rest : List UInt8) :
    Delimited (followingItems items ++ 0x5D :: rest) := by
  cases items with
  | nil => exact .bracket rest
  | cons item items => exact .comma _

section Items

variable {ι α : Type} {reader : Reader α} {doc : ι → Json} {value : ι → α} {items : List ι}

/-- The items behind the first one are read one after the other. The fuel is the number of bytes
that are left, and each item takes at least its comma. -/
theorem reads_followingItems (reads : ∀ item ∈ items, ReadsText reader (doc item) (value item))
    (rest : List UInt8) {fuel : Nat}
    (enough : (followingItems (items.map doc) ++ 0x5D :: rest).length ≤ fuel) :
    (Reader.items reader fuel false).Reads (followingItems (items.map doc) ++ 0x5D :: rest)
      (items.map value) (0x5D :: rest) := by
  induction items generalizing fuel with
  | nil =>
      obtain ⟨n, rfl⟩ := Nat.exists_eq_succ_of_ne_zero (Nat.ne_zero_of_lt enough)
      exact Reader.reads_items_succ.2 (.inl ⟨reads_nextItem_end false rest, rfl⟩)
  | cons item items ih =>
      rw [List.forall_mem_cons] at reads
      obtain ⟨n, rfl⟩ := Nat.exists_eq_succ_of_ne_zero (Nat.ne_zero_of_lt enough)
      rw [List.map_cons, followingItems_cons, List.cons_append, List.append_assoc] at enough ⊢
      refine Reader.reads_items_succ.2 (.inr ⟨value item, items.map value, _, _,
        reads_nextItem_comma _ _, reads.1 (delimited_followingItems _ rest), ih reads.2 ?_, rfl⟩)
      rw [List.length_cons, List.length_append] at enough
      omega

/-- An array is read from what it is printed as, when its items are. The reader of the items is a
parameter, since a codec may read them as something other than values. -/
theorem reads_array (reads : ∀ item ∈ items, ReadsText reader (doc item) (value item)) :
    ReadsText (Reader.array (some reader)) (.array (items.map doc)) (items.map value) := by
  intro rest _
  rw [bytesOf_array]
  refine Reader.reads_array.2 ⟨_, Reader.reads_requireToken_cons rfl _ _, reader, rfl,
    0x5D :: rest, ?_, ?_⟩
  · rw [List.drop_succ_cons, List.drop_zero]
    cases items with
    | nil => exact Reader.reads_items_succ.2 (.inl ⟨reads_nextItem_end true rest, rfl⟩)
    | cons item items =>
        rw [List.forall_mem_cons] at reads
        rw [List.map_cons, bytesOf_compactItems, List.append_assoc]
        refine Reader.reads_items_succ.2 (.inr ⟨value item, items.map value, _, _,
          reads_nextItem_first _ _, reads.1 (delimited_followingItems _ rest),
          reads_followingItems reads.2 rest ?_, rfl⟩)
        simp only [List.length_append]
        omega
  · refine Reader.reads_bind.2 ⟨0x5D, _, Reader.reads_requireToken_cons rfl _ _, ?_⟩
    exact Reader.reads_advance.2 rfl

end Items

/-! ### Members -/

theorem reads_nextKey_end (first : Bool) (rest : List UInt8) :
    (Reader.nextKey first).Reads (0x7D :: rest) none (0x7D :: rest) :=
  Reader.reads_bind.2 ⟨_, _, Reader.reads_requireToken_cons rfl _ rest,
    Reader.reads_pure.2 ⟨rfl, rfl⟩⟩

theorem reads_nextKey_first (key : String) (rest : List UInt8) :
    (Reader.nextKey true).Reads (bytesOf (quote key) ++ rest) (some key) rest := by
  have literal := reads_quote key rest
  rw [bytesOf_quote] at literal ⊢
  refine Reader.reads_bind.2 ⟨0x22, _, Reader.reads_requireToken_cons rfl _ _, ?_⟩
  exact Reader.reads_map.2 ⟨key, literal, rfl⟩

/-- Each further name has a comma in front of it, which is consumed. -/
theorem reads_nextKey_comma (key : String) (rest : List UInt8) :
    (Reader.nextKey false).Reads (0x2C :: (bytesOf (quote key) ++ rest)) (some key) rest := by
  have literal := reads_quote key rest
  refine Reader.reads_bind.2 ⟨0x2C, _, Reader.reads_requireToken_cons rfl _ _, ?_⟩
  refine Reader.reads_bind.2 ⟨(), _, Reader.reads_advance.2 rfl, ?_⟩
  rw [List.drop_succ_cons, List.drop_zero]
  rw [bytesOf_quote] at literal ⊢
  refine Reader.reads_bind.2 ⟨0x22, _, Reader.reads_requireToken_cons rfl _ _, ?_⟩
  exact Reader.reads_map.2 ⟨key, literal, rfl⟩

theorem reads_colon (rest : List UInt8) : Reader.colon.Reads (0x3A :: rest) () rest :=
  Reader.reads_bind.2 ⟨0x3A, _, Reader.reads_requireToken_cons rfl _ _, Reader.reads_advance.2 rfl⟩

/-- The bytes of one member. -/
def memberBytes (member : String × Json) : List UInt8 :=
  bytesOf (quote member.1) ++ 0x3A :: bytesOf (compact member.2)

/-- The members that follow the first one, each after its comma. -/
def followingMembers (members : Document) : List UInt8 :=
  members.flatMap fun member => 0x2C :: memberBytes member

/-- A member is printed as its name, a colon and its value. -/
theorem memberBytes_append (member : String × Json) (rest : List UInt8) :
    memberBytes member ++ rest =
      bytesOf (quote member.1) ++ 0x3A :: (bytesOf (compact member.2) ++ rest) := by
  rw [memberBytes, List.append_assoc]
  rfl

theorem followingMembers_cons (member : String × Json) (members : Document) :
    followingMembers (member :: members) =
      0x2C :: (memberBytes member ++ followingMembers members) :=
  rfl

/-- The bytes of all members are those of the first one and of the members that follow it. -/
theorem bytesOf_compactMembers (member : String × Json) (members : Document) :
    bytesOf (compactMembers (member :: members)) =
      memberBytes member ++ followingMembers members := by
  induction members generalizing member with
  | nil =>
      rw [compactMembers, bytesOf_append, bytesOf_append, List.append_assoc]
      exact (List.append_nil _).symm
  | cons next rest ih =>
      have colon : bytesOf ":" = [0x3A] := rfl
      have comma : bytesOf "," = [0x2C] := rfl
      rw [compactMembers, bytesOf_append, bytesOf_append, bytesOf_append, bytesOf_append, colon,
        comma, ih, followingMembers_cons, memberBytes_append member]
      simp only [List.append_assoc, List.cons_append, List.nil_append]

/-- What follows the value of a member is a comma or a brace, where no number goes on. -/
theorem delimited_followingMembers (members : Document) (rest : List UInt8) :
    Delimited (followingMembers members ++ 0x7D :: rest) := by
  cases members with
  | nil => exact .brace rest
  | cons member members => exact .comma _

section Members

variable {σ : Type}

/-- What the members of an object change, one after the other: each one is read after its key and
gives the state that the next one starts from. -/
inductive Advances (member : String → σ → Reader σ) : σ → Document → σ → Prop
  | nil {s : σ} : Advances member s [] s
  | cons {s mid t : σ} {key : String} {j : Json} {members : Document} :
      (∀ ⦃rest⦄, Delimited rest →
        (member key s).Reads (0x3A :: (bytesOf (compact j) ++ rest)) mid rest) →
      Advances member mid members t → Advances member s ((key, j) :: members) t

variable {member : String → σ → Reader σ} {s t : σ} {members : Document}

/-- The members behind the first one are read one after the other, and take the state along. The
fuel is the number of bytes that are left. -/
theorem Advances.reads_following (h : Advances member s members t) (rest : List UInt8) {fuel : Nat}
    (enough : (followingMembers members ++ 0x7D :: rest).length ≤ fuel) :
    (Reader.members member fuel false s).Reads (followingMembers members ++ 0x7D :: rest) t
      (0x7D :: rest) := by
  induction h generalizing fuel with
  | nil =>
      obtain ⟨n, rfl⟩ := Nat.exists_eq_succ_of_ne_zero (Nat.ne_zero_of_lt enough)
      exact Reader.reads_members_succ.2 (.inl ⟨reads_nextKey_end false rest, rfl⟩)
  | @cons s mid t key j members first _ ih =>
      obtain ⟨n, rfl⟩ := Nat.exists_eq_succ_of_ne_zero (Nat.ne_zero_of_lt enough)
      rw [followingMembers_cons, List.cons_append, List.append_assoc, memberBytes_append]
        at enough ⊢
      refine Reader.reads_members_succ.2 (.inr ⟨key, _, mid, _, reads_nextKey_comma key _,
        first (delimited_followingMembers members rest), ih ?_⟩)
      rw [List.length_cons, List.length_append, List.length_cons, List.length_append] at enough
      omega

/-- All members are read, from the first one on, with the fuel that an object is read with. -/
theorem Advances.reads_members (h : Advances member s members t) (rest : List UInt8) :
    (Reader.members member ((bytesOf (compactMembers members) ++ 0x7D :: rest).length + 1) true
      s).Reads (bytesOf (compactMembers members) ++ 0x7D :: rest) t (0x7D :: rest) := by
  cases h with
  | nil => exact Reader.reads_members_succ.2 (.inl ⟨reads_nextKey_end true rest, rfl⟩)
  | @cons _ mid _ key j members first others =>
      rw [bytesOf_compactMembers, List.append_assoc, memberBytes_append]
      refine Reader.reads_members_succ.2 (.inr ⟨key, _, mid, _, reads_nextKey_first key _,
        first (delimited_followingMembers members rest), others.reads_following rest ?_⟩)
      simp only [List.length_append, List.length_cons]
      omega

/-- An object is read from what it is printed as, when its members are. What is done with a member,
and with which state, is left to whoever reads the object. -/
theorem Advances.reads_object (h : Advances member s members t) (expected : String) :
    ReadsText (Reader.object expected s (some member)) (.object members) t := by
  intro rest _
  rw [bytesOf_object]
  refine Reader.reads_object.2 ⟨_, Reader.reads_requireToken_cons rfl _ _, member, rfl,
    0x7D :: rest, h.reads_members rest, ?_⟩
  refine Reader.reads_bind.2 ⟨0x7D, _, Reader.reads_requireToken_cons rfl _ _, ?_⟩
  exact Reader.reads_advance.2 rfl

/-- A member whose name is new is inserted. A reader that refuses repeated names differs from others
only where this hypothesis fails. -/
theorem reads_readNewMember_of_fresh {value : Reader Json} {before : Document} {key : String}
    {j : Json} (fresh : key ∉ Dict.keys before) {bytes rest : List UInt8}
    (read : value.Reads bytes j rest) :
    (readNewMember value key before).Reads (0x3A :: bytes) (Dict.insert key j before) rest :=
  reads_readNewMember.2 ⟨fresh, Reader.reads_readEntry.2 ⟨bytes, j, reads_colon bytes, read, rfl⟩⟩

/-- A name that occurs once is among those inserted from then on. This is the invariant of reading
members with names that are all different. -/
theorem nodup_insert {before : Document} {key : String} (value : Json) {names : List String}
    (distinct : (Dict.keys before ++ key :: names).Nodup) :
    key ∉ Dict.keys before ∧ (Dict.keys (Dict.insert key value before) ++ names).Nodup := by
  rw [List.nodup_middle, List.nodup_cons, List.mem_append, not_or] at distinct
  obtain ⟨⟨fresh, others⟩, distinct⟩ := distinct
  have perm : (Dict.keys (Dict.insert key value before)).Perm (key :: Dict.keys before) :=
    (Dict.insert_perm fresh).map Prod.fst
  refine ⟨fresh, (perm.append_right names).nodup_iff.2 ?_⟩
  rw [List.cons_append, List.nodup_cons, List.mem_append, not_or]
  exact ⟨⟨fresh, others⟩, distinct⟩

/-- Members with names that occur once are inserted in the order in which they stand. The result is
in order whatever that order is. -/
theorem advances_readNewMember {value : Reader Json} {f : Json → Json} (before : Document)
    (distinct : (Dict.keys before ++ Dict.keys members).Nodup)
    (reads : ∀ member ∈ members, ReadsText value member.2 (f member.2)) :
    Advances (readNewMember value) before members
      ((Dict.mapValues f members).foldl (fun d entry => Dict.insert entry.1 entry.2 d) before) := by
  induction members generalizing before with
  | nil => exact .nil
  | cons member members ih =>
      obtain ⟨key, j⟩ := member
      rw [List.forall_mem_cons] at reads
      obtain ⟨fresh, distinct⟩ := nodup_insert (f j) distinct
      exact .cons (fun _ delimited => reads_readNewMember_of_fresh fresh (reads.1 delimited))
        (ih _ distinct reads.2)

end Members

/-! ### Values without numbers -/

/-- The text of a value is read as the value with its members in order. The proof is by induction on
the value, with the limit of the nesting going down. -/
theorem Unambiguous.reads_compact {depth : Nat} {j : Json} (h : Unambiguous depth j) :
    ReadsText (distinctReader depth) j j.inOrder := by
  induction h with
  | null =>
      intro rest _
      rw [distinctReader_eq, reads_distinctReaderOver_of_ne (by simp [inOrder]), reads_readerOver]
      exact .null (Reader.reads_requireToken_cons rfl _ _) (Reader.reads_advance_word _ _ rest)
  | bool b =>
      intro rest _
      rw [distinctReader_eq, reads_distinctReaderOver_of_ne (by simp [inOrder]), reads_readerOver]
      cases b with
      | true =>
          exact .true (Reader.reads_requireToken_cons rfl _ _) (Reader.reads_advance_word _ _ rest)
      | false =>
          exact .false (Reader.reads_requireToken_cons rfl _ _) (Reader.reads_advance_word _ _ rest)
  | string s =>
      intro rest _
      rw [distinctReader_eq, reads_distinctReaderOver_of_ne (by simp [inOrder]), reads_readerOver,
        compact]
      have literal := reads_quote s rest
      rw [bytesOf_quote] at literal ⊢
      exact .string (Reader.reads_requireToken_cons rfl _ _) literal
  | @array depth items unambiguous ih =>
      intro rest delimited
      have read := reads_array ih delimited
      rw [List.map_id'] at read
      rw [inOrder, inOrderItems_eq_map, distinctReader_eq,
        reads_distinctReaderOver_of_ne (by simp), reads_readerOver]
      exact .array read
  | @object depth members distinct _ ih =>
      intro rest delimited
      rw [inOrder, inOrderMembers_eq_mapValues, distinctReader_eq, reads_distinctReaderOver_object]
      exact (advances_readNewMember [] distinct ih).reads_object _ delimited

/-- The text of a value is read as the value, if all its objects are in order already. -/
theorem Bounded.reads_compact {depth : Nat} {j : Json} (h : Bounded depth j) :
    ReadsText (distinctReader depth) j j := by
  have read := h.unambiguous.reads_compact
  rwa [h.inOrder_eq] at read

/-- The text of a value is read as the value also by the reader that refuses repeated names, up to
the limit of nesting that it has. -/
theorem Bounded.parseDistinct_compact {j : Json} (h : Bounded depthLimit j) :
    parseDistinct (compact j) = .ok j := by
  have read := h.reads_compact .nil
  rw [List.append_nil] at read
  exact Reader.run_eq_ok.2 ⟨[], read, rfl⟩

end Json

end DocumentTable
