import DocumentTable.Proofs.JsonText

/-!
# Values that are passed over

A reader of records passes over the values of keys that it does not know. The text of every document
is passed over as a whole, however deep it nests.

## Main definitions

* `Reader.Skips`: a value, and the containers around it up to the outermost, are passed over
* `Reader.Continues`: the same from behind an item, or from behind the opening of a container

## Main results

* `Json.skips_compact`: a value is passed over when what follows it is
* `Json.readsText_skipValue`: a value is passed over from what it is printed as

## Design notes

Passing over a value keeps a list of the containers that are still open. So what is shown by
induction on a document is about a document inside such containers, given that what comes behind it
is passed over.
-/

namespace DocumentTable

open Reader (Reads)

/-! ### String literals -/

namespace Reader

/-- Passes over what follows a backslash. -/
def skipEscape : Reader (List UInt8) := do
  let b ← requireByte
  advance
  if b = 0x75 then
    let _ ← readHex4
    return []
  else if (shortEscape? b).isSome then return []
  else fault .invalidEscape

theorem skipString_eq :
    skipString = (do advance; let _ ← stringBytes skipEscape (← remaining)) :=
  rfl

end Reader

namespace Json

/-- A character is passed over in what it is written as, without being decoded. -/
theorem skips_quoteBytes {bytes rest : List UInt8}
    (h : ∃ text, ReadsLiteral Reader.skipEscape bytes text rest) (c : Char) :
    ∃ text, ReadsLiteral Reader.skipEscape (quoteBytes c ++ bytes) text rest := by
  obtain ⟨text, h⟩ := h
  have quoted := quotedAs c
  generalize quoteBytes c = written at quoted ⊢
  cases quoted with
  | @short b x notNumeric short _ =>
      have reads : Reader.skipEscape.Reads ([b] ++ bytes) [] bytes := by
        refine Reader.reads_bind.2 ⟨_, _, reads_requireByte _ _, ?_⟩
        refine Reader.reads_bind.2 ⟨(), bytes, Reader.reads_advance.2 rfl, ?_⟩
        rw [if_neg notNumeric, short]
        exact Reader.reads_pure.2 ⟨rfl, rfl⟩
      exact ⟨_, h.escape reads⟩
  | @control digits _ four =>
      have reads : Reader.skipEscape.Reads (0x75 :: digits ++ bytes) [] bytes := by
        refine Reader.reads_bind.2 ⟨_, _, reads_requireByte _ _, ?_⟩
        refine Reader.reads_bind.2 ⟨(), digits ++ bytes, Reader.reads_advance.2 rfl, ?_⟩
        rw [if_pos rfl]
        exact Reader.reads_bind.2 ⟨_, _, four bytes, Reader.reads_pure.2 ⟨rfl, rfl⟩⟩
      exact ⟨_, h.escape reads⟩
  | plain notQuote notEscape notControl =>
      exact ⟨_, h.append notQuote notEscape notControl⟩

/-- A string literal is passed over, by induction on its characters. -/
theorem skips_quote (s : String) (rest : List UInt8) :
    Reader.skipString.Reads (bytesOf (quote s) ++ rest) () rest := by
  have literal : ∃ text,
      ReadsLiteral Reader.skipEscape (s.toList.flatMap quoteBytes ++ 0x22 :: rest) text rest := by
    induction s.toList with
    | nil => exact ⟨[], .quote rest⟩
    | cons c chars ih =>
        rw [List.flatMap_cons, List.append_assoc]
        exact skips_quoteBytes ih c
  obtain ⟨text, literal⟩ := literal
  rw [Reader.skipString_eq, bytesOf_quote, List.cons_append, List.append_assoc]
  refine Reader.reads_bind.2 ⟨(), _, Reader.reads_advance.2 rfl, ?_⟩
  refine Reader.reads_bind.2 ⟨_, _, Reader.reads_remaining.2 ⟨rfl, rfl⟩, ?_⟩
  exact Reader.reads_bind.2
    ⟨text, rest, literal _ (Nat.lt_succ_self _), Reader.reads_pure.2 ⟨rfl, rfl⟩⟩

end Json

/-! ### Open containers -/

namespace Reader

/-- Whether a value and the containers around it are passed over, given fuel for each byte. -/
def Skips (enclosing : List Container) (bytes final : List UInt8) : Prop :=
  ∀ fuel, bytes.length < fuel → (skipUntilClosed fuel enclosing).Reads bytes () final

/-- Whether what comes behind an item, or behind the opening of a container, is passed over up to
the end of the outermost container. -/
def Continues (afterItem : Bool) (containers : List Container) (bytes final : List UInt8) : Prop :=
  ∃ still mid, (skipToItem (bytes.length + 1) afterItem containers).Reads bytes still mid ∧
    mid.length ≤ bytes.length ∧ (still = [] ∧ mid = final ∨ still ≠ [] ∧ Skips still mid final)

/-- The byte that closes a container. -/
def Container.closing : Container → UInt8
  | .array => 0x5D
  | .object => 0x7D

variable {enclosing : List Container} {container : Container} {bytes after rest final : List UInt8}

/-- A scalar or the opening of a container is passed over, and then what comes behind it. The bytes
have to get fewer, since they are the fuel of the loop. -/
theorem Skips.of_opening {opened : Option Container}
    (opening : skipOpening.Reads bytes opened after) (shorter : after.length < bytes.length)
    (h : Continues opened.isNone (opened.toList ++ enclosing) after final) :
    Skips enclosing bytes final := by
  intro fuel enough
  obtain ⟨n, rfl⟩ := Nat.exists_eq_succ_of_ne_zero (Nat.ne_zero_of_lt enough)
  obtain ⟨still, mid, toItem, length, finish⟩ := h
  have loop : Reads (do
      let still ← skipToItem (← remaining) opened.isNone (opened.toList ++ enclosing)
      if still.isEmpty then return () else skipUntilClosed n still) after () final := by
    refine reads_bind.2 ⟨_, _, reads_remaining.2 ⟨rfl, rfl⟩, ?_⟩
    refine reads_bind.2 ⟨still, mid, toItem, ?_⟩
    rcases finish with ⟨rfl, rfl⟩ | ⟨nonempty, skips⟩
    · exact reads_pure.2 ⟨rfl, rfl⟩
    · rw [if_neg (by simp [nonempty])]
      exact skips n (by omega)
  refine reads_bind.2 ⟨opened, after, opening, ?_⟩
  cases opened with
  | none => exact reads_bind.2 ⟨_, _, reads_pure.2 ⟨rfl, rfl⟩, loop⟩
  | some container => exact reads_bind.2 ⟨_, _, reads_pure.2 ⟨rfl, rfl⟩, loop⟩

/-- Behind a value that no container encloses nothing is passed over. -/
theorem continues_nil (rest : List UInt8) : Continues true [] rest rest :=
  ⟨[], rest, reads_pure.2 ⟨rfl, rfl⟩, Nat.le_refl _, .inl ⟨rfl, rfl⟩⟩

/-- The end of a container is passed over, and then what comes behind it in the container around it.
-/
theorem Continues.close (h : Continues true enclosing rest final) (afterItem : Bool) :
    Continues afterItem (container :: enclosing) (container.closing :: rest) final := by
  obtain ⟨still, mid, toItem, length, finish⟩ := h
  refine ⟨still, mid, ?_, Nat.le_succ_of_le length, finish⟩
  cases container with
  | array =>
      refine reads_bind.2 ⟨_, _, reads_requireToken_cons rfl _ _, ?_⟩
      exact reads_bind.2 ⟨(), rest, reads_advance.2 rfl, toItem⟩
  | object =>
      refine reads_bind.2 ⟨_, _, reads_requireToken_cons rfl _ _, ?_⟩
      exact reads_bind.2 ⟨(), rest, reads_advance.2 rfl, toItem⟩

/-- A comma and the key behind it are passed over, and then the item. In an array there is no key to
be passed over. -/
theorem Continues.comma (key : (skipToItem.skipKey container).Reads bytes () rest)
    (shorter : rest.length ≤ bytes.length) (h : Skips (container :: enclosing) rest final) :
    Continues true (container :: enclosing) (0x2C :: bytes) final := by
  refine ⟨_, rest, ?_, Nat.le_succ_of_le shorter, .inr ⟨List.cons_ne_nil _ _, h⟩⟩
  refine reads_bind.2 ⟨_, _, reads_requireToken_cons rfl _ _, ?_⟩
  refine reads_bind.2 ⟨(), bytes, reads_advance.2 rfl, ?_⟩
  exact reads_bind.2 ⟨(), rest, key, reads_pure.2 ⟨rfl, rfl⟩⟩

/-- The key of the first item is passed over, and then the item. A closing bracket in its place
would end the container. -/
theorem Continues.first {b : UInt8} {tail : List UInt8} (start : bytes = b :: tail)
    (notBlank : isBlank b = false) (notClosing : b ≠ container.closing)
    (key : (skipToItem.skipKey container).Reads bytes () rest)
    (shorter : rest.length ≤ bytes.length) (h : Skips (container :: enclosing) rest final) :
    Continues false (container :: enclosing) bytes final := by
  subst start
  refine ⟨_, rest, ?_, shorter, .inr ⟨List.cons_ne_nil _ _, h⟩⟩
  refine reads_bind.2 ⟨_, _, reads_requireToken_cons notBlank _ _, ?_⟩
  have open' : ¬(b = 0x5D && decide (container = .array) ||
      b = 0x7D && decide (container = .object)) = true := by
    cases container with
    | array => simpa [Container.closing] using notClosing
    | object => simpa [Container.closing] using notClosing
  rw [Bool.and_false, if_neg Bool.false_ne_true, if_neg open', if_neg Bool.false_ne_true]
  exact reads_bind.2 ⟨(), rest, key, reads_pure.2 ⟨rfl, rfl⟩⟩

end Reader

/-! ### Documents -/

namespace Json

open Reader (Skips Continues Container)

variable {enclosing : List Container} {rest final : List UInt8}

theorem reads_skipOpening_array (rest : List UInt8) :
    Reader.skipOpening.Reads (0x5B :: rest) (some .array) rest :=
  Reader.reads_bind.2 ⟨_, _, Reader.reads_requireToken_cons rfl _ _,
    Reader.reads_bind.2 ⟨(), rest, Reader.reads_advance.2 rfl, Reader.reads_pure.2 ⟨rfl, rfl⟩⟩⟩

theorem reads_skipOpening_object (rest : List UInt8) :
    Reader.skipOpening.Reads (0x7B :: rest) (some .object) rest :=
  Reader.reads_bind.2 ⟨_, _, Reader.reads_requireToken_cons rfl _ _,
    Reader.reads_bind.2 ⟨(), rest, Reader.reads_advance.2 rfl, Reader.reads_pure.2 ⟨rfl, rfl⟩⟩⟩

theorem lt_length_compact (j : Json) (rest : List UInt8) :
    rest.length < (bytesOf (compact j) ++ rest).length := by
  obtain ⟨b, tail, bytes, -⟩ := exists_compact_eq_cons j
  rw [bytes, List.length_append, List.length_cons]
  omega

theorem reads_skipOpening_number (n : Number) (delimited : Delimited rest) :
    Reader.skipOpening.Reads (bytesOf n.text ++ rest) none rest := by
  obtain ⟨negative, unsigned, text, isUnsigned⟩ := exists_isUnsigned n
  obtain ⟨b, tail, bytes, notBlank, first, noSign⟩ := isUnsigned.exists_first negative rest
  have skips := isUnsigned.skips delimited
  rw [text, bytes]
  refine Reader.reads_bind.2 ⟨b, _, Reader.reads_requireToken_cons notBlank _ _, ?_⟩
  cases negative with
  | true =>
      cases bytes
      exact Reader.reads_bind.2 ⟨(), _, Reader.reads_advance.2 rfl,
        Reader.reads_bind.2 ⟨(), rest, skips, Reader.reads_pure.2 ⟨rfl, rfl⟩⟩⟩
  | false =>
      have digit := first.resolve_left (noSign rfl)
      have letters : b ≠ 0x6E ∧ b ≠ 0x74 ∧ b ≠ 0x66 := by
        refine ⟨?_, ?_, ?_⟩ <;> rintro rfl <;> exact absurd digit (by decide)
      rw [if_neg letters.1, if_neg letters.2.1, if_neg letters.2.2, if_neg (noSign rfl),
        if_pos digit, ← bytes]
      exact Reader.reads_bind.2 ⟨(), rest, skips, Reader.reads_pure.2 ⟨rfl, rfl⟩⟩

/-- A scalar is passed over at once, as it opens no container. -/
theorem reads_skipOpening_scalar {j : Json} (delimited : Delimited rest)
    (array : ∀ items, j ≠ .array items) (object : ∀ members, j ≠ .object members) :
    Reader.skipOpening.Reads (bytesOf (compact j) ++ rest) none rest := by
  cases j with
  | null =>
      refine Reader.reads_bind.2 ⟨0x6E, _, Reader.reads_requireToken_cons rfl _ _, ?_⟩
      exact Reader.reads_bind.2
        ⟨(), rest, Reader.reads_advance_word _ _ rest, Reader.reads_pure.2 ⟨rfl, rfl⟩⟩
  | bool b =>
      cases b with
      | true =>
          refine Reader.reads_bind.2 ⟨0x74, _, Reader.reads_requireToken_cons rfl _ _, ?_⟩
          exact Reader.reads_bind.2
            ⟨(), rest, Reader.reads_advance_word _ _ rest, Reader.reads_pure.2 ⟨rfl, rfl⟩⟩
      | false =>
          refine Reader.reads_bind.2 ⟨0x66, _, Reader.reads_requireToken_cons rfl _ _, ?_⟩
          exact Reader.reads_bind.2
            ⟨(), rest, Reader.reads_advance_word _ _ rest, Reader.reads_pure.2 ⟨rfl, rfl⟩⟩
  | number n => exact reads_skipOpening_number n delimited
  | string s =>
      have literal := skips_quote s rest
      rw [compact]
      rw [bytesOf_quote] at literal ⊢
      refine Reader.reads_bind.2 ⟨0x22, _, Reader.reads_requireToken_cons rfl _ _, ?_⟩
      exact Reader.reads_bind.2 ⟨(), rest, literal, Reader.reads_pure.2 ⟨rfl, rfl⟩⟩
  | array items => exact absurd rfl (array items)
  | object members => exact absurd rfl (object members)

theorem reads_skipKey_object (key : String) (rest : List UInt8) :
    (Reader.skipToItem.skipKey .object).Reads (bytesOf (quote key) ++ 0x3A :: rest) () rest := by
  have literal := skips_quote key (0x3A :: rest)
  rw [bytesOf_quote] at literal ⊢
  refine Reader.reads_bind.2 ⟨0x22, _, Reader.reads_requireToken_cons rfl _ _, ?_⟩
  rw [if_neg (by decide)]
  refine Reader.reads_bind.2 ⟨(), _, literal, ?_⟩
  refine Reader.reads_bind.2 ⟨0x3A, _, Reader.reads_requireToken_cons rfl _ _, ?_⟩
  exact Reader.reads_advance.2 rfl

mutual

/-- A value is passed over when what follows it is. The induction is on the value, together with its
items and members, and the containers around it are a parameter. -/
theorem skips_compact (j : Json) {enclosing : List Container} {rest final : List UInt8}
    (delimited : Delimited rest) (h : Continues true enclosing rest final) :
    Skips enclosing (bytesOf (compact j) ++ rest) final := by
  cases j with
  | array items =>
      rw [bytesOf_array]
      exact .of_opening (reads_skipOpening_array _) (Nat.lt_succ_self _) (continues_items items h)
  | object members =>
      rw [bytesOf_object]
      exact .of_opening (reads_skipOpening_object _) (Nat.lt_succ_self _)
        (continues_members members h)
  | _ =>
      exact .of_opening (reads_skipOpening_scalar delimited nofun nofun) (lt_length_compact _ _) h

/-- The items of an array are passed over with its end, by induction on them. -/
theorem continues_items (items : List Json) {enclosing : List Container} {rest final : List UInt8}
    (h : Continues true enclosing rest final) :
    Continues false (.array :: enclosing) (bytesOf (compactItems items) ++ 0x5D :: rest) final := by
  cases items with
  | nil => exact h.close false
  | cons item items =>
      obtain ⟨b, tail, bytes, notBlank, notEnd, -⟩ := exists_compact_eq_cons item
      rw [bytesOf_compactItems, List.append_assoc]
      refine .first (b := b) (by rw [bytes]; rfl) notBlank notEnd
        (Reader.reads_pure.2 ⟨rfl, rfl⟩) (Nat.le_refl _) ?_
      exact skips_compact item (delimited_followingItems items rest)
        (continues_followingItems items h)

/-- The items of an array are passed over with its end, from behind one of them. -/
theorem continues_followingItems (items : List Json) {enclosing : List Container}
    {rest final : List UInt8} (h : Continues true enclosing rest final) :
    Continues true (.array :: enclosing) (followingItems items ++ 0x5D :: rest) final := by
  cases items with
  | nil => exact h.close true
  | cons item items =>
      rw [followingItems_cons, List.cons_append, List.append_assoc]
      refine .comma (Reader.reads_pure.2 ⟨rfl, rfl⟩) (Nat.le_refl _) ?_
      exact skips_compact item (delimited_followingItems items rest)
        (continues_followingItems items h)

/-- The members of an object are passed over with its end, by induction on them. -/
theorem continues_members (members : List (String × Json)) {enclosing : List Container}
    {rest final : List UInt8} (h : Continues true enclosing rest final) :
    Continues false (.object :: enclosing) (bytesOf (compactMembers members) ++ 0x7D :: rest)
      final := by
  cases members with
  | nil => exact h.close false
  | cons member members =>
      obtain ⟨key, j⟩ := member
      have quotes := bytesOf_quote key
      rw [bytesOf_compactMembers, List.append_assoc, memberBytes_append]
      refine .first (b := 0x22) (by rw [quotes]; rfl) rfl (by decide)
        (reads_skipKey_object key _) (by simp; omega) ?_
      exact skips_compact j (delimited_followingMembers members rest)
        (continues_followingMembers members h)

/-- The members of an object are passed over with its end, from behind one of them. -/
theorem continues_followingMembers (members : List (String × Json)) {enclosing : List Container}
    {rest final : List UInt8} (h : Continues true enclosing rest final) :
    Continues true (.object :: enclosing) (followingMembers members ++ 0x7D :: rest) final := by
  cases members with
  | nil => exact h.close true
  | cons member members =>
      obtain ⟨key, j⟩ := member
      rw [followingMembers_cons, List.cons_append, List.append_assoc, memberBytes_append]
      refine .comma (reads_skipKey_object key _) (by simp; omega) ?_
      exact skips_compact j (delimited_followingMembers members rest)
        (continues_followingMembers members h)

end

/-- A value is passed over from what it is printed as, and what follows it is left. -/
theorem readsText_skipValue (j : Json) : ReadsText Reader.skipValue j () := by
  intro rest delimited
  refine Reader.reads_bind.2 ⟨_, _, Reader.reads_remaining.2 ⟨rfl, rfl⟩, ?_⟩
  exact skips_compact j delimited (Reader.continues_nil rest) _ (Nat.lt_succ_self _)

end Json

end DocumentTable
