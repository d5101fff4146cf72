import DocumentTable.Proofs.Skipping
import DocumentTable.Proofs.Source

/-!
# Passing over values as they are written

Every source is passed over as a whole: with blanks anywhere, escapes that stand for no text,
numbers of any size and names that occur twice.

## Main definitions

* `Reader.IgnoresBlanks`: blanks before what a reader reads make no difference

## Main results

* `Json.Source.skips`: a source is passed over when what follows it is
* `Json.Source.reads_skipValue`: a source between blanks is passed over
-/

namespace DocumentTable

open Reader (Reads)

/-! ### Blanks -/

namespace Reader

variable {α β : Type}

/-- Blanks before what a reader reads make no difference. -/
def IgnoresBlanks (reader : Reader α) : Prop :=
  ∀ (blanks : Json.Blanks) (bytes : List UInt8),
    StateT.run reader (blanks.bytes ++ bytes) = StateT.run reader bytes

theorem ignoresBlanks_peekToken : IgnoresBlanks peekToken := by
  intro blanks bytes
  show Except.ok _ = Except.ok _
  rw [List.dropWhile_append_of_pos blanks.all]

/-- A sequence ignores the blanks that its first part ignores. -/
theorem IgnoresBlanks.bind {x : Reader α} (h : IgnoresBlanks x) (f : α → Reader β) :
    IgnoresBlanks (x >>= f) := by
  intro blanks bytes
  rw [StateT.run_bind, StateT.run_bind, h blanks bytes]

theorem ignoresBlanks_requireToken (atEnd : Malformed) : IgnoresBlanks (requireToken atEnd) :=
  ignoresBlanks_peekToken.bind _

/-- A reader that ignores blanks reads the same behind them and without them. -/
theorem IgnoresBlanks.reads {reader : Reader α} (h : IgnoresBlanks reader) {blanks : Json.Blanks}
    {bytes rest : List UInt8} {a : α} :
    reader.Reads (blanks.bytes ++ bytes) a rest ↔ reader.Reads bytes a rest := by
  rw [Reads, Reads, h blanks bytes]

theorem ignoresBlanks_skipOpening : IgnoresBlanks skipOpening :=
  (ignoresBlanks_requireToken _).bind _

theorem ignoresBlanks_skipKey_object : IgnoresBlanks (skipToItem.skipKey .object) :=
  (ignoresBlanks_requireToken _).bind _

theorem ignoresBlanks_colon : IgnoresBlanks colon :=
  (ignoresBlanks_requireToken _).bind _

/-! ### Open containers -/

variable {enclosing : List Container} {container : Container} {bytes final : List UInt8}

/-- More fuel changes nothing. The fuel of a container is that of all bytes behind it, and within it
less of it is needed. -/
theorem reads_skipToItem_mono {fuel fuel' : Nat} (le : fuel ≤ fuel') {afterItem : Bool}
    {containers still : List Container} {rest : List UInt8}
    (h : (skipToItem fuel afterItem containers).Reads bytes still rest) :
    (skipToItem fuel' afterItem containers).Reads bytes still rest := by
  -- outside of all containers nothing is left to pass over, with any fuel
  have ended (n : Nat) (afterItem : Bool) : skipToItem n afterItem [] = pure [] := by
    cases n <;> rfl
  induction fuel generalizing fuel' afterItem containers bytes with
  | zero =>
      cases containers with
      | nil =>
          rw [ended] at h ⊢
          exact h
      | cons container outer => exact absurd h not_reads_fault
  | succ fuel ih =>
      cases containers with
      | nil =>
          rw [ended] at h ⊢
          exact h
      | cons container outer =>
          obtain ⟨n, rfl⟩ := Nat.exists_eq_add_of_le' (Nat.le_of_add_left_le le)
          obtain ⟨b, mid, token, h⟩ := reads_bind.1 h
          refine reads_bind.2 ⟨b, mid, token, ?_⟩
          split at h
          · next comma => rwa [if_pos comma]
          · next noComma =>
              rw [if_neg noComma]
              split at h
              · next closes =>
                  rw [if_pos closes]
                  obtain ⟨_, mid', advances, closed⟩ := reads_bind.1 h
                  exact reads_bind.2
                    ⟨(), mid', advances, ih (Nat.le_of_add_le_add_right le) closed⟩
              · next opened => rwa [if_neg opened]

/-- Blanks inside a container are passed over, before an item as well as behind one. -/
theorem Continues.blanks {afterItem : Bool}
    (h : Continues afterItem (container :: enclosing) bytes final) (blanks : Json.Blanks) :
    Continues afterItem (container :: enclosing) (blanks.bytes ++ bytes) final := by
  obtain ⟨still, mid, toItem, length, finish⟩ := h
  have longer : bytes.length ≤ (blanks.bytes ++ bytes).length := by
    rw [List.length_append]
    omega
  have ignores (n : Nat) : IgnoresBlanks (skipToItem (n + 1) afterItem (container :: enclosing)) :=
    (ignoresBlanks_requireToken _).bind _
  refine ⟨still, mid, ?_, Nat.le_trans length longer, finish⟩
  exact reads_skipToItem_mono (Nat.succ_le_succ longer) ((ignores _).reads.2 toItem)

/-- Blanks before a value are passed over, as its first token is looked for. -/
theorem Skips.blanks (h : Skips enclosing bytes final) (blanks : Json.Blanks) :
    Skips enclosing (blanks.bytes ++ bytes) final := by
  intro fuel enough
  obtain ⟨n, rfl⟩ := Nat.exists_eq_succ_of_ne_zero (Nat.ne_zero_of_lt enough)
  have ignores : IgnoresBlanks (skipUntilClosed (n + 1) enclosing) :=
    ignoresBlanks_skipOpening.bind _
  rw [List.length_append] at enough
  exact ignores.reads.2 (h _ (by omega))

end Reader

namespace Json

variable {rest : List UInt8}

/-! ### Scalars -/

/-- Four digits are read as the number that they are, in upper and in lower case. -/
theorem HexCode.reads_readHex4 (code : HexCode) (rest : List UInt8) :
    Reader.readHex4.Reads (code.bytes ++ rest) code.value rest := by
  show Reader.readHex4 (code.a.byte :: code.b.byte :: code.c.byte :: code.d.byte :: rest) = _
  rw [Reader.readHex4, HexDigit.hexValue?_byte, HexDigit.hexValue?_byte, HexDigit.hexValue?_byte,
    HexDigit.hexValue?_byte]
  rfl

theorem ShortEscape.reads_skipEscape (escape : ShortEscape) (rest : List UInt8) :
    Reader.skipEscape.Reads ([escape.letter] ++ rest) [] rest := by
  refine Reader.reads_bind.2 ⟨_, _, reads_requireByte _ _, ?_⟩
  refine Reader.reads_bind.2 ⟨(), rest, Reader.reads_advance.2 rfl, ?_⟩
  rw [if_neg escape.letter_ne, escape.shortEscape?_letter]
  exact Reader.reads_pure.2 ⟨rfl, rfl⟩

/-- The escape of a number is passed over, also of one that stands for no character. -/
theorem HexCode.reads_skipEscape (code : HexCode) (rest : List UInt8) :
    Reader.skipEscape.Reads (0x75 :: code.bytes ++ rest) [] rest := by
  refine Reader.reads_bind.2 ⟨_, _, reads_requireByte _ _, ?_⟩
  refine Reader.reads_bind.2 ⟨(), code.bytes ++ rest, Reader.reads_advance.2 rfl, ?_⟩
  exact Reader.reads_bind.2
    ⟨_, _, code.reads_readHex4 rest, Reader.reads_pure.2 ⟨rfl, rfl⟩⟩

/-- A string literal is passed over, whether or not it stands for a text. A member that no field has
may hold any literal. -/
theorem Literal.reads_skipString (literal : Literal) (rest : List UInt8) :
    Reader.skipString.Reads (literal.bytes ++ rest) () rest := by
  have units : ∃ text, ReadsLiteral Reader.skipEscape (literal.tailBytes ++ rest) text rest := by
    induction literal with
    | nil => exact ⟨[], .quote rest⟩
    | cons unit units ih =>
        obtain ⟨text, ih⟩ := ih
        rw [tailBytes, List.flatMap_cons, List.append_assoc, List.append_assoc]
        rw [tailBytes, List.append_assoc] at ih
        cases unit with
        | plain byte isPlain =>
            exact ⟨_, ih.cons isPlain.2.1 isPlain.2.2 (UInt8.not_lt.2 isPlain.1)⟩
        | short escape => exact ⟨_, ih.escape (escape.reads_skipEscape _)⟩
        | numeric code => exact ⟨_, ih.escape (code.reads_skipEscape _)⟩
  obtain ⟨text, units⟩ := units
  rw [Reader.skipString_eq]
  refine Reader.reads_bind.2 ⟨(), _, Reader.reads_advance.2 rfl, ?_⟩
  refine Reader.reads_bind.2 ⟨_, _, Reader.reads_remaining.2 ⟨rfl, rfl⟩, ?_⟩
  exact Reader.reads_bind.2
    ⟨text, rest, units _ (Nat.lt_succ_self _), Reader.reads_pure.2 ⟨rfl, rfl⟩⟩

/-- A power of ten is passed over behind its letter, with a sign and without one. -/
theorem Power.reads_skipExponent (power : Power) (ends : Ends rest) :
    Reader.skipExponent.Reads (power.bytes ++ rest) () rest := by
  have digits := reads_takeDigits power.digits.all ends.not_isDigit
  have finish : Reads (do if (← Reader.takeDigits).isEmpty then Reader.fault .invalidNumber)
      (power.digits.bytes ++ rest) () rest := by
    refine Reader.reads_bind.2 ⟨_, _, digits, ?_⟩
    rw [if_neg (by simp [power.digits.ne_nil])]
    exact Reader.reads_pure.2 ⟨rfl, rfl⟩
  refine Reader.reads_bind.2 ⟨(), power.tailBytes ++ rest, Reader.reads_advance.2 rfl, ?_⟩
  refine Reader.reads_bind.2 ⟨_, _, Reader.reads_peek.2 ⟨rfl, rfl⟩, ?_⟩
  rw [Power.tailBytes]
  cases power.sign with
  | none =>
      -- the first digit is no sign
      obtain ⟨b, tail, bytes⟩ := List.exists_cons_of_ne_nil power.digits.ne_nil
      have digit : Reader.isDigit b = true := power.digits.all b (bytes ▸ List.mem_cons_self)
      have head : (power.digits.bytes ++ rest).head? = some b := by rw [bytes]; rfl
      show Reads _ (power.digits.bytes ++ rest) () rest
      rw [Option.toList_none, List.map_nil, List.nil_append, head]
      split
      · next same => cases same; exact absurd digit (by decide)
      · next same => cases same; exact absurd digit (by decide)
      · exact finish
  | some negative =>
      cases negative with
      | true => exact Reader.reads_bind.2 ⟨(), _, Reader.reads_advance.2 rfl, finish⟩
      | false => exact Reader.reads_bind.2 ⟨(), _, Reader.reads_advance.2 rfl, finish⟩

namespace NumberLiteral

/-- A power of ten is passed over, or nothing is when there is none. What ends a number does not
look like one. -/
theorem reads_skipPower (n : NumberLiteral) (ends : Ends rest) :
    Reads (do
      match ← Reader.peek with
      | some 0x65 => Reader.skipExponent
      | some 0x45 => Reader.skipExponent
      | _ => pure ()) (n.powerBytes ++ rest) () rest := by
  refine Reader.reads_bind.2 ⟨_, _, Reader.reads_peek.2 ⟨rfl, rfl⟩, ?_⟩
  rw [powerBytes]
  cases n.power with
  | none =>
      show Reads _ rest () rest
      rw [Option.elim_none, List.nil_append]
      split
      · next letter => exact absurd letter (ends.head?_ne rfl (by decide))
      · next letter => exact absurd letter (ends.head?_ne rfl (by decide))
      · exact Reader.reads_pure.2 ⟨rfl, rfl⟩
  | some power =>
      have skips := power.reads_skipExponent ends
      rw [Option.elim_some]
      rw [Power.bytes] at skips ⊢
      cases power.upper with
      | true => exact skips
      | false => exact skips

/-- The power of ten of a number is no digit and no point, so that the digits before it end there.
-/
theorem head?_powerBytes (n : NumberLiteral) (ends : Ends rest) :
    (∀ b ∈ (n.powerBytes ++ rest).head?, Reader.isDigit b = false) ∧
      (n.powerBytes ++ rest).head? ≠ some 0x2E := by
  rw [powerBytes]
  cases n.power with
  | none => exact ⟨ends.not_isDigit, ends.head?_ne rfl (by decide)⟩
  | some power =>
      rw [Option.elim_some, Power.bytes]
      cases power.upper with
      | true =>
          refine ⟨?_, fun point => absurd (Option.some.inj point) (by decide)⟩
          rintro b ⟨⟩
          rfl
      | false =>
          refine ⟨?_, fun point => absurd (Option.some.inj point) (by decide)⟩
          rintro b ⟨⟩
          rfl

/-- A number behind its sign is passed over, of whatever size it is: a number beyond the largest one
is no fault here. -/
theorem reads_skipNumber (n : NumberLiteral) (ends : Ends rest) :
    Reader.skipNumber.Reads (n.unsignedBytes ++ rest) () rest := by
  obtain ⟨noDigit, noPoint⟩ := n.head?_powerBytes ends
  have skips := n.reads_skipPower ends
  have formed : ¬(n.whole.isEmpty || decide (n.whole.head? = some 0x30) &&
      decide (1 < n.whole.length)) = true := by
    have notPadded := n.starts.not_padded
    simpa [n.starts.ne_nil] using notPadded
  rw [unsignedBytes, fractionBytes, List.append_assoc, List.append_assoc]
  cases n.fraction with
  | none =>
      rw [Option.elim_none, List.nil_append]
      refine Reader.reads_bind.2 ⟨_, _, reads_takeDigits n.starts.all noDigit, ?_⟩
      rw [if_neg formed]
      refine Reader.reads_bind.2 ⟨_, _, Reader.reads_peek.2 ⟨rfl, rfl⟩, ?_⟩
      -- the byte behind the digits is looked at twice: for a point here, and for an exponent where
      -- there is no point
      obtain ⟨_, _, peeks, skips⟩ := Reader.reads_bind.1 skips
      obtain ⟨rfl, rfl⟩ := Reader.reads_peek.1 peeks
      split
      · next point => exact absurd point noPoint
      · next letter =>
          rw [letter] at skips
          exact skips
      · next letter =>
          rw [letter] at skips
          exact skips
      · next noLetter noLetter' =>
          split at skips
          · next letter => exact absurd letter noLetter
          · next letter => exact absurd letter noLetter'
          · exact skips
  | some fraction =>
      have point : ∀ b ∈ (0x2E :: (fraction.bytes ++ (n.powerBytes ++ rest))).head?,
          Reader.isDigit b = false := by
        rintro b ⟨⟩
        rfl
      rw [Option.elim_some, List.cons_append]
      refine Reader.reads_bind.2 ⟨_, _, reads_takeDigits n.starts.all point, ?_⟩
      rw [if_neg formed]
      refine Reader.reads_bind.2 ⟨_, _, Reader.reads_peek.2 ⟨rfl, rfl⟩, ?_⟩
      refine Reader.reads_bind.2 ⟨(), _, Reader.reads_advance.2 rfl, ?_⟩
      rw [List.drop_succ_cons, List.drop_zero]
      refine Reader.reads_bind.2 ⟨_, _, reads_takeDigits fraction.all noDigit, ?_⟩
      rw [if_neg (by simp [fraction.ne_nil])]
      exact skips

theorem reads_skipOpening (n : NumberLiteral) (ends : Ends rest) :
    Reader.skipOpening.Reads (n.bytes ++ rest) none rest := by
  obtain ⟨b, tail, bytes, notBlank, first, noSign⟩ := n.exists_first rest
  have skips := n.reads_skipNumber ends
  rw [bytes]
  refine Reader.reads_bind.2 ⟨b, _, Reader.reads_requireToken_cons notBlank _ _, ?_⟩
  rw [NumberLiteral.bytes, List.append_assoc] at bytes
  cases negative : n.negative with
  | true =>
      rw [negative] at bytes
      cases bytes
      exact Reader.reads_bind.2 ⟨(), _, Reader.reads_advance.2 rfl,
        Reader.reads_bind.2 ⟨(), rest, skips, Reader.reads_pure.2 ⟨rfl, rfl⟩⟩⟩
  | false =>
      have digit := first.resolve_left (noSign negative)
      have letters : b ≠ 0x6E ∧ b ≠ 0x74 ∧ b ≠ 0x66 := by
        refine ⟨?_, ?_, ?_⟩ <;> rintro rfl <;> exact absurd digit (by decide)
      rw [negative] at bytes
      rw [if_neg letters.1, if_neg letters.2.1, if_neg letters.2.2, if_neg (noSign negative),
        if_pos digit, ← bytes]
      exact Reader.reads_bind.2 ⟨(), rest, skips, Reader.reads_pure.2 ⟨rfl, rfl⟩⟩

end NumberLiteral

/-! ### Values -/

namespace Source

open Reader (Skips Continues Container)

/-- A scalar is passed over at once, since it opens no container. -/
theorem reads_skipOpening_scalar {s : Source} (ends : Ends rest)
    (noArray : ∀ gap items, s ≠ array gap items)
    (noObject : ∀ gap members, s ≠ object gap members) :
    Reader.skipOpening.Reads (s.bytes ++ rest) none rest := by
  cases s with
  | null =>
      refine Reader.reads_bind.2 ⟨0x6E, _, Reader.reads_requireToken_cons rfl _ _, ?_⟩
      exact Reader.reads_bind.2
        ⟨(), rest, Reader.reads_advance_word _ _ rest, Reader.reads_pure.2 ⟨rfl, rfl⟩⟩
  | bool b =>
      cases b with
      | true =>
          refine Reader.reads_bind.2 ⟨0x74, _, Reader.reads_requireToken_cons rfl _ _, ?_⟩
          exact Reader.reads_bind.2
            ⟨(), rest, Reader.reads_advance_word _ _ rest, Reader.reads_pure.2 ⟨rfl, rfl⟩⟩
      | false =>
          refine Reader.reads_bind.2 ⟨0x66, _, Reader.reads_requireToken_cons rfl _ _, ?_⟩
          exact Reader.reads_bind.2
            ⟨(), rest, Reader.reads_advance_word _ _ rest, Reader.reads_pure.2 ⟨rfl, rfl⟩⟩
  | number literal => exact literal.reads_skipOpening ends
  | string literal =>
      refine Reader.reads_bind.2 ⟨0x22, _, Reader.reads_requireToken_cons rfl _ _, ?_⟩
      exact Reader.reads_bind.2
        ⟨(), rest, literal.reads_skipString rest, Reader.reads_pure.2 ⟨rfl, rfl⟩⟩
  | array gap items => exact absurd rfl (noArray gap items)
  | object gap members => exact absurd rfl (noObject gap members)

/-- The name of a member is passed over with the colon behind it. -/
theorem reads_skipKey_object (name : Literal) (afterName : Blanks) (rest : List UInt8) :
    (Reader.skipToItem.skipKey .object).Reads (name.bytes ++ (afterName.bytes ++ 0x3A :: rest)) ()
      rest := by
  refine Reader.reads_bind.2 ⟨0x22, _, Reader.reads_requireToken_cons rfl _ _, ?_⟩
  rw [if_neg (by decide)]
  refine Reader.reads_bind.2 ⟨(), _, name.reads_skipString _, ?_⟩
  refine ((Reader.ignoresBlanks_requireToken _).bind _).reads.2 ?_
  refine Reader.reads_bind.2 ⟨0x3A, _, Reader.reads_requireToken_cons rfl _ _, ?_⟩
  exact Reader.reads_advance.2 rfl

/-- A source has at least one byte, which is what a turn of the loop costs. -/
theorem lt_length_bytes (s : Source) (rest : List UInt8) :
    rest.length < (s.bytes ++ rest).length := by
  obtain ⟨b, tail, bytes, -⟩ := exists_bytes_eq_cons s
  rw [bytes, List.length_append, List.length_cons]
  omega

mutual

/-- A source is passed over when what follows it is. The induction is on the source, together with
its items and members, and the containers around it are a parameter. -/
theorem skips (s : Source) {enclosing : List Container} {rest final : List UInt8}
    (ends : Ends rest) (h : Continues true enclosing rest final) :
    Skips enclosing (s.bytes ++ rest) final := by
  cases s with
  | array gap items =>
      have inner := (continues_items true items h).blanks gap
      rw [bytes, List.cons_append, List.append_assoc, List.append_assoc]
      exact .of_opening (reads_skipOpening_array _) (Nat.lt_succ_self _) inner
  | object gap members =>
      have inner := (continues_members true members h).blanks gap
      rw [bytes, List.cons_append, List.append_assoc, List.append_assoc]
      exact .of_opening (reads_skipOpening_object _) (Nat.lt_succ_self _) inner
  | _ =>
      exact .of_opening (reads_skipOpening_scalar ends nofun nofun) (lt_length_bytes _ _) h

/-- The items of an array are passed over with its end, by induction on them. -/
theorem continues_items (first : Bool) (items : List (Padded Source)) {enclosing : List Container}
    {rest final : List UInt8} (h : Continues true enclosing rest final) :
    Continues (!first) (.array :: enclosing) (itemsBytes first items ++ 0x5D :: rest) final := by
  cases items with
  | nil => exact h.close _
  | cons item items =>
      obtain ⟨before, value, after⟩ := item
      have following := (continues_items false items h).blanks after
      have skipped := value.skips (.blanks after (.items items rest)) following
      rw [itemsBytes]
      simp only [List.append_assoc]
      cases first with
      | true =>
          obtain ⟨b, tail, bytes, notBlank, notEnd, -⟩ := value.exists_bytes_eq_cons
          refine Continues.blanks ?_ before
          exact .first (b := b) (by rw [bytes]; rfl) notBlank notEnd
            (Reader.reads_pure.2 ⟨rfl, rfl⟩) (Nat.le_refl _) skipped
      | false =>
          exact .comma (Reader.reads_pure.2 ⟨rfl, rfl⟩) (Nat.le_refl _) (skipped.blanks before)

/-- The members of an object are passed over with its end, by induction on them. -/
theorem continues_members (first : Bool) (members : List (Member Source))
    {enclosing : List Container} {rest final : List UInt8}
    (h : Continues true enclosing rest final) :
    Continues (!first) (.object :: enclosing) (membersBytes first members ++ 0x7D :: rest)
      final := by
  cases members with
  | nil => exact h.close _
  | cons member members =>
      obtain ⟨before, name, afterName, beforeValue, value, after⟩ := member
      have following := (continues_members false members h).blanks after
      have skipped :=
        (value.skips (.blanks after (.members members rest)) following).blanks beforeValue
      have key := reads_skipKey_object name afterName (beforeValue.bytes ++ (value.bytes ++
        (after.bytes ++ (membersBytes false members ++ 0x7D :: rest))))
      rw [membersBytes]
      simp only [List.append_assoc, List.cons_append]
      cases first with
      | true =>
          refine Continues.blanks ?_ before
          exact .first (b := 0x22) rfl rfl (by decide) key (by simp; omega) skipped
      | false =>
          rw [comma_false, List.singleton_append]
          exact .comma (Reader.ignoresBlanks_skipKey_object.reads.2 key) (by simp; omega) skipped

end

/-- A source between blanks is passed over, but for the blanks behind it. Nothing is asked of what
it says, only that it is a source. -/
theorem reads_skipValue (s : Source) (before : Blanks) (ends : Ends rest) :
    Reader.skipValue.Reads (before.bytes ++ (s.bytes ++ rest)) () rest := by
  refine Reader.reads_bind.2 ⟨_, _, Reader.reads_remaining.2 ⟨rfl, rfl⟩, ?_⟩
  exact (s.skips ends (Reader.continues_nil rest)).blanks before _ (Nat.lt_succ_self _)

end Source

end Json

end DocumentTable
