import DocumentTable.Proofs.SourceSkipping

/-!
# Reading values as they are written

What is read from a source is known from the source alone, and so is whether anything is read. A
string literal must stand for a text, a text must not be a value of another kind, and an object is
read when all of its members are.

## Main definitions

* `Reader.Yields`: a reader reads one value from bytes, or it fails
* `Json.Source.text?`, `Json.Source.nullableText?`: the text that a source stands for
* `Json.ReadsMember`: what a reader of members makes of a member
* `Json.foldMembers`: what such a reader makes of the members of an object

## Main results

* `Json.Literal.yields_readString`: a string literal is read as the text that it stands for
* `Json.Source.yields_nullable_text`: a text that may be null is read from a source
* `Json.Source.yields_members`: the members of an object are read one after the other
* `Codec.yields_readFields`: the fields of a record are read from an object
-/

namespace DocumentTable

namespace Reader

variable {α β : Type}

/-- A reader reads one value from bytes and leaves the rest, or it fails if there is no value. -/
def Yields (reader : Reader α) (bytes : List UInt8) (outcome : Option α) (rest : List UInt8) :
    Prop :=
  (StateT.run reader bytes).toOption = outcome.map fun a => (a, rest)

variable {reader : Reader α} {bytes mid rest : List UInt8} {outcome : Option α}

/-- A reader that reads a value yields it. -/
theorem Reads.yields {a : α} (h : reader.Reads bytes a rest) :
    reader.Yields bytes (some a) rest := by
  rw [Yields, show StateT.run reader bytes = .ok (a, rest) from h]
  rfl

/-- A reader that yields a value reads it. What a reader yields may also be nothing, when it
refuses, and this is what the one notion has over the other. -/
theorem Yields.reads {a : α} (h : reader.Yields bytes (some a) rest) :
    reader.Reads bytes a rest := by
  rw [Yields] at h
  rw [Reads]
  cases run : StateT.run reader bytes with
  | error e =>
      rw [run] at h
      cases h
  | ok read =>
      rw [run] at h
      cases h
      rfl

theorem reads_advance_cons (b : UInt8) (bytes : List UInt8) :
    advance.Reads (b :: bytes) () bytes :=
  reads_advance.2 rfl

/-- A reader that has its value already yields it. -/
theorem yields_pure (a : α) (bytes : List UInt8) : Yields (pure a) bytes (some a) bytes :=
  rfl

theorem yields_throw (e : ReadError) (bytes rest : List UInt8) :
    Yields (throw e : Reader α) bytes none rest :=
  rfl

theorem yields_fault (cause : Malformed) (bytes rest : List UInt8) :
    Yields (fault cause : Reader α) bytes none rest :=
  rfl

theorem yields_refuse (expected : String) (bytes rest : List UInt8) :
    Yields (refuse expected : Reader α) bytes none rest := by
  rw [Yields]
  cases run : StateT.run (refuse expected : Reader α) bytes with
  | error e => rfl
  | ok read => exact absurd run not_reads_refuse

/-- A step that may fail yields what it gives, if anything. -/
theorem yields_lift (step : Except ReadError α) (bytes : List UInt8) :
    Yields (monadLift step) bytes step.toOption bytes := by
  cases step <;> rfl

/-- A sequence yields what its second part does behind what its first part reads. When the first
part refuses, so does the sequence, wherever the second part is to stop. -/
theorem Yields.bind {f : α → Reader β} {g : α → Option β} (h : reader.Yields bytes outcome mid)
    (next : ∀ a, (f a).Yields mid (g a) rest) :
    (reader >>= f).Yields bytes (outcome.bind g) rest := by
  rw [Yields, StateT.run_bind]
  rw [Yields] at h
  cases run : StateT.run reader bytes with
  | error e =>
      rw [run] at h
      cases outcome with
      | none => rfl
      | some a => cases h
  | ok read =>
      rw [run] at h
      cases outcome with
      | none => cases h
      | some a =>
          cases h
          exact next a

/-- A sequence refuses what its first part refuses. -/
theorem Yields.fail {f : α → Reader β} (h : reader.Yields bytes none mid) :
    (reader >>= f).Yields bytes none rest := by
  rw [Yields, StateT.run_bind]
  rw [Yields] at h
  cases run : StateT.run reader bytes with
  | error e => rfl
  | ok read =>
      rw [run] at h
      cases h

/-- Behind what its first part reads, a sequence yields what its second part does. -/
theorem Reads.bind {a : α} {f : α → Reader β} {outcome : Option β} (h : reader.Reads bytes a mid)
    (next : (f a).Yields mid outcome rest) : (reader >>= f).Yields bytes outcome rest := by
  rw [Yields, StateT.run_bind, show StateT.run reader bytes = .ok (a, mid) from h]
  exact next

/-- What is made of a value has no influence on where a reader stops or whether it refuses. -/
theorem Yields.map (h : reader.Yields bytes outcome rest) (f : α → β) :
    Yields (do return f (← reader)) bytes (outcome.map f) rest := by
  rw [Option.map_eq_bind]
  exact h.bind fun a => yields_pure (f a) rest

/-- Blanks in front of a token make no difference to what is yielded. -/
theorem IgnoresBlanks.yields (h : IgnoresBlanks reader) {blanks : Json.Blanks} :
    reader.Yields (blanks.bytes ++ bytes) outcome rest ↔ reader.Yields bytes outcome rest := by
  rw [Yields, Yields, h blanks bytes]

/-- What is read between the ends of a container. When the inner reader refuses, nothing is asked of
the end. -/
theorem Yields.enclosed (h : reader.Yields bytes outcome mid) {finish : Reader Unit}
    (finished : finish.Reads mid () rest) (opening : UInt8) :
    (Reader.enclosed (some reader) finish).Yields (opening :: bytes) outcome rest := by
  refine Reads.bind (reads_advance_cons _ _) ?_
  rw [← Option.bind_fun_some outcome]
  exact h.bind fun a => finished.bind (yields_pure a rest)

/-- What is read from a whole text, of which nothing but blanks is left. Refusals and errors are not
told apart from here on. -/
theorem Yields.run (h : reader.Yields bytes outcome rest) (blank : rest.dropWhile isBlank = []) :
    (Reader.run reader bytes).toOption = outcome := by
  cases outcome with
  | none =>
      rw [Yields] at h
      rw [Reader.run]
      cases run : StateT.run reader bytes with
      | error e => rfl
      | ok read =>
          rw [run] at h
          cases h
  | some a =>
      rw [run_eq_ok.2 ⟨rest, h.reads, blank⟩]
      rfl

/-- Reads the second half of a character behind the first one. -/
def readTrailing (first : Nat) : Reader (List UInt8) := do
  if (← requireByte) ≠ 0x5C then fault .unpairedEscape
  else
    advance
    if (← requireByte) ≠ 0x75 then fault .unpairedEscape
    else
      advance
      let second ← readHex4
      if second < 0xDC00 || 0xDFFF < second then fault .loneSurrogate
      else return charBytes ((first - 0xD800) * 1024 + (second - 0xDC00) + 0x10000)

end Reader

namespace Json

/-! ### String literals -/

section Literals

variable {rest : List UInt8}

/-- An escape of one letter is read as the byte that it stands for. -/
theorem ShortEscape.reads_readEscape (escape : ShortEscape) (rest : List UInt8) :
    Reader.readEscape.Reads ([escape.letter] ++ rest) [escape.byte] rest := by
  refine Reader.reads_bind.2 ⟨_, _, reads_requireByte _ _, ?_⟩
  refine Reader.reads_bind.2 ⟨(), rest, Reader.reads_advance.2 rfl, ?_⟩
  rw [if_neg escape.letter_ne, escape.shortEscape?_letter]
  exact Reader.reads_pure.2 ⟨rfl, rfl⟩

/-- The escape of a number is read from its digits on, since its letter has been looked at. -/
theorem yields_readEscape_numeric {bytes : List UInt8} {outcome : Option (List UInt8)}
    (h : Reader.readNumericEscape.Yields bytes outcome rest) :
    Reader.readEscape.Yields (0x75 :: bytes) outcome rest := by
  refine Reader.Reads.bind (reads_requireByte _ _) ?_
  refine Reader.Reads.bind (Reader.reads_advance_cons _ _) ?_
  exact h

namespace HexCode

variable (code : HexCode)

/-- The number of a whole character is read as the bytes of the character. Numbers of halves are
excluded, for they stand for no character alone. -/
theorem yields_readNumericEscape_whole (notLeading : ¬code.IsLeading)
    (notTrailing : ¬code.IsTrailing) (rest : List UInt8) :
    Reader.readNumericEscape.Yields (code.bytes ++ rest) (some (Reader.charBytes code.value))
      rest := by
  refine Reader.Reads.bind (code.reads_readHex4 rest) ?_
  rw [IsLeading] at notLeading
  rw [IsTrailing] at notTrailing
  rw [if_neg (by simp; omega), if_pos (by simp; omega)]
  exact Reader.yields_pure _ rest

/-- The second half of a character has no first half before it, and is refused whatever follows. -/
theorem yields_readNumericEscape_trailing (trailing : code.IsTrailing) (bytes rest : List UInt8) :
    Reader.readNumericEscape.Yields (code.bytes ++ bytes) none rest := by
  refine Reader.Reads.bind (code.reads_readHex4 bytes) ?_
  rw [IsTrailing] at trailing
  rw [if_pos (by simp; omega)]
  exact Reader.yields_fault _ _ _

/-- The first half of a character, and what is read behind it. Whether there is a character depends
on what follows. -/
theorem yields_readNumericEscape_leading (leading : code.IsLeading) {bytes : List UInt8}
    {outcome : Option (List UInt8)}
    (h : (Reader.readTrailing code.value).Yields bytes outcome rest) :
    Reader.readNumericEscape.Yields (code.bytes ++ bytes) outcome rest := by
  refine Reader.Reads.bind (code.reads_readHex4 bytes) ?_
  rw [IsLeading] at leading
  rw [if_neg (by simp; omega), if_neg (by simp; omega)]
  exact h

/-- No escape follows, so that the first half stays alone and is refused. -/
theorem yields_readTrailing_of_ne {b : UInt8} (notEscape : b ≠ 0x5C) (bytes rest : List UInt8) :
    (Reader.readTrailing code.value).Yields (b :: bytes) none rest := by
  refine Reader.Reads.bind (reads_requireByte _ _) ?_
  rw [if_pos notEscape]
  exact Reader.yields_fault _ _ _

/-- An escape of one letter follows. It is a character of its own, and the first half stays alone.
-/
theorem yields_readTrailing_short (escape : ShortEscape) (bytes rest : List UInt8) :
    (Reader.readTrailing code.value).Yields (0x5C :: escape.letter :: bytes) none rest := by
  refine Reader.Reads.bind (reads_requireByte _ _) ?_
  rw [if_neg (by simp)]
  refine Reader.Reads.bind (Reader.reads_advance_cons _ _) ?_
  refine Reader.Reads.bind (reads_requireByte _ _) ?_
  rw [if_pos escape.letter_ne]
  exact Reader.yields_fault _ _ _

/-- The escape of another number follows, which must be that of a second half. The two halves make
one character. -/
theorem yields_readTrailing_numeric (other : HexCode) (rest : List UInt8) :
    (Reader.readTrailing code.value).Yields (0x5C :: 0x75 :: (other.bytes ++ rest))
      (if other.IsTrailing then some (Reader.charBytes (code.join other)) else none) rest := by
  refine Reader.Reads.bind (reads_requireByte _ _) ?_
  rw [if_neg (by simp)]
  refine Reader.Reads.bind (Reader.reads_advance_cons _ _) ?_
  refine Reader.Reads.bind (reads_requireByte _ _) ?_
  rw [if_neg (by simp)]
  refine Reader.Reads.bind (Reader.reads_advance_cons _ _) ?_
  refine Reader.Reads.bind (other.reads_readHex4 rest) ?_
  by_cases trailing : other.IsTrailing
  · rw [if_pos trailing]
    rw [IsTrailing] at trailing
    rw [if_neg (by simp; omega)]
    exact Reader.yields_pure _ rest
  · rw [if_neg trailing]
    rw [IsTrailing] at trailing
    rw [if_pos (by simp; omega)]
    exact Reader.yields_fault _ _ _

end HexCode

/-- Bytes from which the rest of a string literal is read, given fuel for each of them, or from
which none is. -/
def YieldsLiteral (bytes : List UInt8) (outcome : Option (List UInt8)) (rest : List UInt8) : Prop :=
  ∀ fuel, bytes.length < fuel →
    (Reader.stringBytes Reader.readEscape fuel).Yields bytes outcome rest

namespace YieldsLiteral

variable {bytes : List UInt8} {outcome : Option (List UInt8)}

/-- A byte that stands for itself. When what follows is refused, so is the whole. -/
theorem plain (h : YieldsLiteral bytes outcome rest) {b : UInt8}
    (isPlain : IsPlain b) :
    YieldsLiteral (b :: bytes) (outcome.map ([b] ++ ·)) rest := by
  intro fuel enough
  obtain ⟨n, rfl⟩ := Nat.exists_eq_succ_of_ne_zero (Nat.ne_zero_of_lt enough)
  refine Reader.Reads.bind (reads_requireByte _ _) ?_
  rw [if_neg isPlain.2.1, if_neg isPlain.2.2, if_neg (UInt8.not_lt.2 isPlain.1)]
  refine Reader.Reads.bind (Reader.reads_advance_cons _ _) ?_
  exact (h n (Nat.lt_of_succ_lt_succ enough)).map _

/-- An escape, and what is read behind it. Either may be refused, and then the whole is. -/
theorem escape (h : YieldsLiteral bytes outcome rest) {escaped : List UInt8}
    {part : Option (List UInt8)}
    (yields : Reader.readEscape.Yields (escaped ++ bytes) part bytes) :
    YieldsLiteral (0x5C :: (escaped ++ bytes))
      (part.bind fun first => outcome.map (first ++ ·)) rest := by
  intro fuel enough
  obtain ⟨n, rfl⟩ := Nat.exists_eq_succ_of_ne_zero (Nat.ne_zero_of_lt enough)
  refine Reader.Reads.bind (reads_requireByte _ _) ?_
  refine Reader.Reads.bind (Reader.reads_advance_cons _ _) ?_
  refine yields.bind fun first => (h n ?_).map (first ++ ·)
  rw [List.length_cons, List.length_append] at enough
  omega

/-- An escape that stands for nothing, so that the literal is refused without a look at the rest of
it. -/
theorem escape_none (yields : Reader.readEscape.Yields bytes none rest) :
    YieldsLiteral (0x5C :: bytes) none rest := by
  intro fuel enough
  obtain ⟨n, rfl⟩ := Nat.exists_eq_succ_of_ne_zero (Nat.ne_zero_of_lt enough)
  refine Reader.Reads.bind (reads_requireByte _ _) ?_
  refine Reader.Reads.bind (Reader.reads_advance_cons _ _) ?_
  exact yields.fail

end YieldsLiteral

/-- The rest of a string literal is read as what it stands for, by induction on its characters.
Escapes of two halves are taken together. -/
theorem Literal.yieldsLiteral (literal : Literal) (rest : List UInt8) :
    YieldsLiteral (literal.tailBytes ++ rest) literal.content? rest := by
  -- the cases are those of the meaning of a literal, which take two halves of a character at once
  fun_induction Literal.content? literal with
  | case1 => exact fun fuel enough => (ReadsLiteral.quote rest fuel enough).yields
  | case2 byte isPlain units ih => exact ih.plain isPlain
  | case3 escape units ih => exact ih.escape (escape.reads_readEscape _).yields
  | case4 code leading other units trailing ih =>
      have pair := code.yields_readTrailing_numeric other (tailBytes units ++ rest)
      rw [if_pos trailing] at pair
      have unescapes : Reader.readEscape.Yields
          (0x75 :: (code.bytes ++ 0x5C :: 0x75 :: other.bytes) ++ (tailBytes units ++ rest)) _ _ :=
        yields_readEscape_numeric (code.yields_readNumericEscape_leading leading pair)
      exact ih.escape unescapes
  | case5 code leading other units notTrailing =>
      have pair := code.yields_readTrailing_numeric other (tailBytes units ++ rest)
      rw [if_neg notTrailing] at pair
      exact .escape_none (yields_readEscape_numeric
        (code.yields_readNumericEscape_leading leading pair))
  | case6 code units leading noNumeric =>
      -- whatever follows a first half is read as a second half and refused, each kind of unit for a
      -- reason of its own
      have unpaired :
          (Reader.readTrailing code.value).Yields (tailBytes units ++ rest) none [] := by
        cases units with
        | nil => exact code.yields_readTrailing_of_ne (by decide) rest []
        | cons unit units =>
            cases unit with
            | plain byte isPlain =>
                exact code.yields_readTrailing_of_ne isPlain.2.2 (tailBytes units ++ rest) []
            | short escape =>
                exact code.yields_readTrailing_short escape (tailBytes units ++ rest) []
            | numeric other => exact absurd rfl (noNumeric other units)
      exact .escape_none (yields_readEscape_numeric
        (code.yields_readNumericEscape_leading leading unpaired))
  | case7 code units notLeading trailing =>
      exact .escape_none (yields_readEscape_numeric
        (code.yields_readNumericEscape_trailing trailing (tailBytes units ++ rest) rest))
  | case8 code units notLeading notTrailing ih =>
      have unescapes : Reader.readEscape.Yields
          (0x75 :: code.bytes ++ (tailBytes units ++ rest)) _ _ :=
        yields_readEscape_numeric
          (code.yields_readNumericEscape_whole notLeading notTrailing (tailBytes units ++ rest))
      exact ih.escape unescapes

/-- A string literal is read as the text that it stands for. It is refused exactly when it stands
for none. -/
theorem Literal.yields_readString (literal : Literal) (rest : List UInt8) :
    Reader.readString.Yields (literal.bytes ++ rest) literal.text? rest := by
  refine Reader.Reads.bind (Reader.reads_advance_cons _ _) ?_
  refine Reader.Reads.bind (Reader.reads_remaining.2 ⟨rfl, rfl⟩) ?_
  refine (literal.yieldsLiteral rest _ (Nat.lt_succ_self _)).bind fun content => ?_
  cases textOf? content with
  | none => exact Reader.yields_fault _ _ _
  | some s => exact Reader.yields_pure _ _

end Literals

/-! ### Texts that may be null -/

namespace Source

/-- The text that a source stands for, if it is one. -/
def text? : Source → Option String
  | string literal => literal.text?
  | _ => none

/-- The text that a source stands for or, if it is null, the absence of one. -/
def nullableText? : Source → Option (Option String)
  | null => some none
  | s => s.text?.map some

variable (s : Source) (depth : Nat) (rest : List UInt8)

/-- A text is read from a source, or the source is refused: every other kind of value is. -/
theorem yields_text : (Codec.text.read depth).Yields (s.bytes ++ rest) s.text? rest := by
  obtain ⟨b, tail, bytes, notBlank, -, -, quote⟩ := s.exists_bytes_eq_cons
  have token : (Reader.requireToken .endInValue).Reads (s.bytes ++ rest) b (s.bytes ++ rest) := by
    rw [bytes]
    exact Reader.reads_requireToken_cons notBlank _ _
  refine token.bind ?_
  by_cases isText : b = 0x22
  · obtain ⟨literal, rfl⟩ := quote isText
    rw [if_pos isText]
    exact literal.yields_readString rest
  · have noText : s.text? = none := by
      cases s with
      | string literal =>
          cases bytes
          exact absurd rfl isText
      | _ => rfl
    rw [if_neg isText, noText]
    exact Reader.yields_refuse _ _ _

/-- A text that may be null is read from a source, or the source is refused. Null is known by its
first letter. -/
theorem yields_nullable_text :
    (Codec.text.nullable.read depth).Yields (s.bytes ++ rest) s.nullableText? rest := by
  obtain ⟨b, tail, bytes, notBlank, -, letter, -⟩ := s.exists_bytes_eq_cons
  have peeks : Reader.peekToken.Reads (s.bytes ++ rest) (some b) (s.bytes ++ rest) := by
    rw [bytes]
    exact Reader.reads_peekToken.2 ⟨List.dropWhile_cons_of_neg (by simp [notBlank]), rfl⟩
  refine peeks.bind ?_
  split
  · next isNull =>
      cases letter (Option.some.inj isNull)
      exact (Reader.reads_advance_word _ _ rest).yields.map fun _ => none
  · next notNull =>
      have same : s.nullableText? = s.text?.map some := by
        cases s with
        | null =>
            cases bytes
            exact absurd rfl notNull
        | _ => rfl
      rw [same]
      exact (s.yields_text depth rest).map some

end Source

/-- Blanks before a value that may be null make no difference. -/
theorem ignoresBlanks_read_nullable {α : Type} (c : Codec α) (depth : Nat) :
    Reader.IgnoresBlanks (c.nullable.read depth) :=
  Reader.ignoresBlanks_peekToken.bind _

/-! ### Members -/

theorem ignoresBlanks_nextKey (first : Bool) : Reader.IgnoresBlanks (Reader.nextKey first) :=
  (Reader.ignoresBlanks_requireToken _).bind _

/-- The name of a member is read behind the comma before it, unless it stands for no text. Then the
whole object is refused. -/
theorem yields_nextKey (first : Bool) (before : Blanks) (name : Literal) (rest : List UInt8) :
    (Reader.nextKey first).Yields (comma first ++ (before.bytes ++ (name.bytes ++ rest)))
      (name.text?.map some) rest := by
  have quote (atEnd : Malformed) :
      (Reader.requireToken atEnd).Reads (name.bytes ++ rest) 0x22 (name.bytes ++ rest) :=
    Reader.reads_requireToken_cons rfl _ _
  have key := (name.yields_readString rest).map some
  cases first with
  | true =>
      refine (ignoresBlanks_nextKey true).yields.2 ?_
      refine (quote .endInObject).bind ?_
      rw [if_neg (by decide), if_pos rfl, if_pos rfl]
      exact key
  | false =>
      refine Reader.Reads.bind (Reader.reads_requireToken_cons rfl _ _) ?_
      rw [if_neg (by decide), if_neg Bool.false_ne_true, if_pos rfl]
      refine Reader.Reads.bind (Reader.reads_advance_cons _ _) ?_
      refine ((Reader.ignoresBlanks_requireToken _).bind _).yields.2 ?_
      refine (quote .endInValue).bind ?_
      rw [if_pos rfl]
      exact key

section Members

variable {σ : Type} {member : String → σ → Reader σ} {step : σ → String → Source → Option σ}

/-- What the members of an object make of a state, one after the other. There is nothing when a name
stands for no text. -/
def foldMembers (step : σ → String → Source → Option σ) (members : List (Member Source)) (s : σ) :
    Option σ :=
  members.foldlM (fun s m => m.name.text?.bind fun key => step s key m.item.value) s

/-- A member is read behind its name and changes the state, or it is refused. -/
def ReadsMember (member : String → σ → Reader σ) (step : σ → String → Source → Option σ) : Prop :=
  ∀ (s : σ) (key : String) (afterName before : Blanks) (value : Source) {rest : List UInt8},
    Ends rest → (member key s).Yields
      (afterName.bytes ++ 0x3A :: (before.bytes ++ (value.bytes ++ rest))) (step s key value) rest

/-- Blanks before members make no difference, as long as there is fuel for one of them. -/
theorem ignoresBlanks_members (member : String → σ → Reader σ) (fuel : Nat) (first : Bool) (s : σ) :
    Reader.IgnoresBlanks (Reader.members member (fuel + 1) first s) :=
  (ignoresBlanks_nextKey first).bind _

/-- The members of an object are read one after the other up to its end. What is made of them is a
fold, which stops at the first one that is refused. -/
theorem Source.yields_members (h : ReadsMember member step) (first : Bool)
    (members : List (Member Source)) (s : σ) (rest : List UInt8) {fuel : Nat}
    (enough : (membersBytes first members ++ 0x7D :: rest).length ≤ fuel) :
    (Reader.members member fuel first s).Yields (membersBytes first members ++ 0x7D :: rest)
      (foldMembers step members s) (0x7D :: rest) := by
  induction members generalizing first s fuel with
  | nil =>
      obtain ⟨n, rfl⟩ := Nat.exists_eq_succ_of_ne_zero (Nat.ne_zero_of_lt enough)
      exact (reads_nextKey_end first rest).bind (Reader.yields_pure s _)
  | cons m members ih =>
      obtain ⟨before, name, afterName, beforeValue, value, after⟩ := m
      rw [membersBytes] at enough ⊢
      simp only [List.append_assoc, List.cons_append, List.length_append, List.length_cons]
        at enough ⊢
      obtain ⟨n, rfl⟩ := Nat.exists_eq_succ_of_ne_zero (show fuel ≠ 0 by omega)
      have next := yields_nextKey first before name (afterName.bytes ++ 0x3A ::
        (beforeValue.bytes ++ (value.bytes ++ (after.bytes ++
          (membersBytes false members ++ 0x7D :: rest)))))
      rw [foldMembers, List.foldlM_cons]
      cases text : name.text? with
      | none =>
          rw [text] at next
          exact next.fail
      | some key =>
          rw [text] at next
          refine next.reads.bind ?_
          refine (h s key afterName beforeValue value (.blanks after (.members members rest))).bind
            fun s' => ?_
          -- blanks behind the value stand before what comes next, which is read with less fuel
          obtain ⟨k, rfl⟩ := Nat.exists_eq_succ_of_ne_zero (show n ≠ 0 by omega)
          refine (ignoresBlanks_members member k false s').yields.2 (ih false s' ?_)
          simp only [List.length_append, List.length_cons]
          omega

end Members

theorem reads_endObject (rest : List UInt8) : Reader.endObject.Reads (0x7D :: rest) () rest :=
  Reader.reads_bind.2 ⟨0x7D, _, Reader.reads_requireToken_cons rfl _ _, Reader.reads_advance.2 rfl⟩

theorem reads_colon_between (afterName : Blanks) (rest : List UInt8) :
    Reader.colon.Reads (afterName.bytes ++ 0x3A :: rest) () rest :=
  Reader.ignoresBlanks_colon.reads.2 (reads_colon rest)

end Json

/-! ### Records -/

namespace Codec

open Json (Blanks Source Member)

variable {τ ρ : Type} {fields : Fields τ ρ}

/-- The fields of a record are read from the members of an object in the order in which they stand.
Blanks are allowed wherever the source has them. -/
theorem yields_readFields {depth : Nat} {step : ρ → String → Source → Option ρ}
    (h : Json.ReadsMember (readMember fields depth) step) (name : String) (before gap : Blanks)
    (members : List (Member Source)) (rest : List UInt8) :
    (readFields name fields (depth + 1)).Yields
      (before.bytes ++ ((Source.object gap members).bytes ++ rest))
      ((Json.foldMembers step members fields.noSlots).bind fun slots =>
        (fields.finish slots).toOption) rest := by
  refine ((Reader.ignoresBlanks_requireToken _).bind _).yields.2 ?_
  rw [Source.bytes, List.cons_append, List.append_assoc, List.append_assoc]
  refine Reader.Reads.bind (Reader.reads_requireToken_cons rfl _ _) ?_
  refine Reader.Yields.enclosed ?_ (Json.reads_endObject rest) _
  refine Reader.Reads.bind (Reader.reads_remaining.2 ⟨rfl, rfl⟩) ?_
  have body := Source.yields_members h true members fields.noSlots rest
    (Nat.le_succ_of_le (Nat.le_add_left _ gap.bytes.length))
  rw [← List.length_append] at body
  refine Reader.Yields.bind ((Json.ignoresBlanks_members _ _ _ _).yields.2 body) fun slots => ?_
  exact Reader.yields_lift _ _

end Codec

end DocumentTable
