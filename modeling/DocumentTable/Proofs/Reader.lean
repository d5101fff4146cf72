import DocumentTable.Json.Reader
import DocumentTable.Proofs.Dict
import DocumentTable.Proofs.Except

/-!
# Successful readings

What a reader reads, described by the bytes before and after. A sequence of readers reads what its
parts read one after the other, so that a reading is taken apart and put together again step by
step.

## Main definitions

* `Reader.Reads`: a reader reads a value from bytes and leaves others
* `Reader.Carries`: what one reader reads, another one reads as its image
* `Reader.Lifts`: what one reader reads as an image, another one reads

## Main results

* `Reader.reads_bind`: the readings of a sequence
* `Reader.Carries.array`, `Reader.Lifts.array`: arrays are read alike when their items are
-/

namespace DocumentTable.Reader

variable {α β γ : Type}

/-- Whether a reader reads a value from bytes and leaves the rest. -/
def Reads (reader : Reader α) (bytes : List UInt8) (a : α) (rest : List UInt8) : Prop :=
  StateT.run reader bytes = .ok (a, rest)

/-- A reader reads one value at most, and stops in one place. -/
theorem Reads.unique {reader : Reader α} {bytes rest rest' : List UInt8} {a a' : α}
    (h : reader.Reads bytes a rest) (h' : reader.Reads bytes a' rest') : a = a' ∧ rest = rest' := by
  have same := h.symm.trans h'
  cases same
  exact ⟨rfl, rfl⟩

/-- A sequence reads what its parts read one after the other. Readers are taken apart with this and
with the rules for single steps. -/
theorem reads_bind {x : Reader α} {f : α → Reader β} {bytes rest : List UInt8} {b : β} :
    (x >>= f).Reads bytes b rest ↔ ∃ a mid, x.Reads bytes a mid ∧ (f a).Reads mid b rest := by
  rw [Reads, StateT.run_bind]
  constructor
  · intro h
    obtain ⟨⟨a, mid⟩, first, second⟩ := exists_of_except_bind h
    exact ⟨a, mid, first, second⟩
  · rintro ⟨a, mid, first, second⟩
    rw [show StateT.run x bytes = .ok (a, mid) from first]
    exact second

/-- A reader that has its value already consumes nothing. -/
@[simp] theorem reads_pure {a b : α} {bytes rest : List UInt8} :
    Reads (pure a) bytes b rest ↔ a = b ∧ bytes = rest := by
  constructor
  · intro h
    cases h
    exact ⟨rfl, rfl⟩
  · rintro ⟨rfl, rfl⟩
    rfl

@[simp] theorem not_reads_throw {e : ReadError} {bytes rest : List UInt8} {a : α} :
    ¬Reads (throw e) bytes a rest :=
  nofun

@[simp] theorem not_reads_fault {cause : Malformed} {bytes rest : List UInt8} {a : α} :
    ¬Reads (fault cause) bytes a rest :=
  nofun

@[simp] theorem not_reads_refuse {expected : String} {bytes rest : List UInt8} {a : α} :
    ¬Reads (refuse expected) bytes a rest := by
  rw [refuse, reads_bind]
  rintro ⟨_, _, -, reads⟩
  exact not_reads_throw reads

/-- A step that reads nothing, but may fail. -/
theorem reads_lift {step : Except ReadError α} {bytes rest : List UInt8} {a : α} :
    Reads (monadLift step) bytes a rest ↔ step = .ok a ∧ bytes = rest := by
  cases step with
  | error e => exact iff_of_false nofun nofun
  | ok b =>
      constructor
      · intro h
        cases h
        exact ⟨rfl, rfl⟩
      · rintro ⟨same, rfl⟩
        cases same
        rfl

/-- What is made of a value has no influence on what is consumed. -/
theorem reads_map {x : Reader α} {f : α → β} {bytes rest : List UInt8} {b : β} :
    Reads (do return f (← x)) bytes b rest ↔ ∃ a, x.Reads bytes a rest ∧ f a = b := by
  simp only [reads_bind, reads_pure]
  constructor
  · rintro ⟨a, mid, reads, same, rfl⟩
    exact ⟨a, reads, same⟩
  · rintro ⟨a, reads, same⟩
    exact ⟨a, rest, reads, same, rfl⟩

/-- A whole text is read when nothing but blanks is left behind the value. -/
theorem run_eq_ok {reader : Reader α} {bytes : List UInt8} {a : α} :
    run reader bytes = .ok a ↔ ∃ rest, reader.Reads bytes a rest ∧ rest.dropWhile isBlank = [] := by
  rw [run]
  constructor
  · intro h
    split at h
    · cases h
    · next b rest read =>
        split at h
        · next blank =>
            cases h
            exact ⟨rest, read, List.isEmpty_iff.1 blank⟩
        · cases h
  · rintro ⟨rest, read, blank⟩
    rw [show StateT.run reader bytes = .ok (a, rest) from read]
    exact if_pos (List.isEmpty_iff.2 blank)

/-! ### Pieces -/

theorem reads_advance {bytes rest : List UInt8} {a : Unit} :
    advance.Reads bytes a rest ↔ bytes.drop 1 = rest := by
  constructor
  · intro h
    cases h
    rfl
  · rintro rfl
    rfl

/-- Looking at the next byte consumes nothing. -/
theorem reads_peek {bytes rest : List UInt8} {b : Option UInt8} :
    peek.Reads bytes b rest ↔ bytes.head? = b ∧ bytes = rest := by
  constructor
  · intro h
    cases h
    exact ⟨rfl, rfl⟩
  · rintro ⟨rfl, rfl⟩
    rfl

/-- The fuel of a loop is one more than the number of bytes that are left, and asking for it
consumes nothing. -/
theorem reads_remaining {bytes rest : List UInt8} {n : Nat} :
    remaining.Reads bytes n rest ↔ bytes.length + 1 = n ∧ bytes = rest := by
  constructor
  · intro h
    cases h
    exact ⟨rfl, rfl⟩
  · rintro ⟨rfl, rfl⟩
    rfl

/-- Looking for a token passes over the blanks before it. -/
theorem reads_peekToken {bytes rest : List UInt8} {b : Option UInt8} :
    peekToken.Reads bytes b rest ↔ bytes.dropWhile isBlank = rest ∧ rest.head? = b := by
  constructor
  · intro h
    cases h
    exact ⟨rfl, rfl⟩
  · rintro ⟨rfl, rfl⟩
    rfl

/-- The next byte that is no blank, and the bytes from there on. There has to be one. -/
theorem reads_requireToken {atEnd : Malformed} {bytes rest : List UInt8} {b : UInt8} :
    (requireToken atEnd).Reads bytes b rest ↔
      bytes.dropWhile isBlank = rest ∧ rest.head? = some b := by
  rw [requireToken, reads_bind]
  constructor
  · rintro ⟨next, mid, peeks, reads⟩
    obtain ⟨dropped, head⟩ := reads_peekToken.1 peeks
    cases next with
    | none => exact absurd reads not_reads_fault
    | some c =>
        obtain ⟨rfl, rfl⟩ := reads_pure.1 reads
        exact ⟨dropped, head⟩
  · rintro ⟨dropped, head⟩
    exact ⟨some b, rest, reads_peekToken.2 ⟨dropped, head⟩, reads_pure.2 ⟨rfl, rfl⟩⟩

/-- Looking at a token again finds it in its place. Readers that choose by a token leave it for the
one that they choose. -/
theorem Reads.requireToken_again {atEnd : Malformed} {bytes rest : List UInt8} {b : UInt8}
    (h : (requireToken atEnd).Reads bytes b rest) (atEnd' : Malformed) :
    (requireToken atEnd').Reads rest b rest := by
  obtain ⟨rfl, head⟩ := reads_requireToken.1 h
  refine reads_requireToken.2 ⟨?_, head⟩
  have notBlank := List.head?_dropWhile_not isBlank bytes
  rw [head] at notBlank
  cases rest : bytes.dropWhile isBlank with
  | nil => rfl
  | cons c following =>
      rw [rest] at head
      cases head
      exact List.dropWhile_cons_of_neg (Bool.not_eq_true _ ▸ notBlank)

/-- Whether the blanks before a token were passed over makes no difference. -/
theorem Reads.after_token {atEnd atEnd' : Malformed} {bytes mid rest : List UInt8} {b : UInt8}
    (h : (requireToken atEnd).Reads bytes b mid) {next : UInt8 → Reader α} {a : α} :
    Reads (requireToken atEnd' >>= next) mid a rest ↔
      Reads (requireToken atEnd' >>= next) bytes a rest := by
  have before : (requireToken atEnd').Reads bytes b mid :=
    reads_requireToken.2 (reads_requireToken.1 h)
  have again := h.requireToken_again atEnd'
  rw [reads_bind, reads_bind]
  constructor
  · rintro ⟨c, start, token, read⟩
    obtain ⟨rfl, rfl⟩ := token.unique again
    exact ⟨c, start, before, read⟩
  · rintro ⟨c, start, token, read⟩
    obtain ⟨rfl, rfl⟩ := token.unique before
    exact ⟨c, start, again, read⟩

/-- Whether a member follows cannot be found out where the text has ended. -/
theorem Reads.ne_nil {first : Bool} {key : Option String} {bytes rest : List UInt8}
    (h : (nextKey first).Reads bytes key rest) : bytes ≠ [] := by
  rintro rfl
  rw [nextKey, reads_bind] at h
  obtain ⟨b, mid, token, -⟩ := h
  obtain ⟨rfl, head⟩ := reads_requireToken.1 token
  cases head

/-! ### Readers that agree -/

/-- What one reader reads, another one reads as its image. -/
def Carries (f : α → β) (x : Reader α) (y : Reader β) : Prop :=
  ∀ ⦃bytes a rest⦄, x.Reads bytes a rest → y.Reads bytes (f a) rest

/-- What one reader reads as an image, another one reads. -/
def Lifts (f : α → β) (x : Reader α) (y : Reader β) : Prop :=
  ∀ ⦃bytes a rest⦄, y.Reads bytes (f a) rest → x.Reads bytes a rest

variable {f : α → β} {x : Reader α} {y : Reader β}

/-- What is read between the ends of a container. There is no body when the nesting limit has been
reached. -/
theorem reads_enclosed {body : Option (Reader α)} {finish : Reader Unit} {bytes rest : List UInt8}
    {a : α} :
    (enclosed body finish).Reads bytes a rest ↔
      ∃ inner, body = some inner ∧ ∃ mid, inner.Reads (bytes.drop 1) a mid ∧
        finish.Reads mid () rest := by
  cases body with
  | none => simp [enclosed]
  | some inner =>
      simp only [enclosed, reads_bind, reads_advance, reads_pure, Option.some.injEq]
      constructor
      · rintro ⟨_, _, rfl, value, mid, reads, _, _, finished, rfl, rfl⟩
        exact ⟨inner, rfl, mid, reads, finished⟩
      · rintro ⟨_, rfl, mid, reads, finished⟩
        exact ⟨(), _, rfl, a, mid, reads, (), rest, finished, rfl, rfl⟩

/-- A container is read from its opening on, within the nesting limit. The body is given the fuel
for all bytes behind the opening. -/
theorem reads_container {content : Option γ} {body : γ → Nat → Reader α} {finish : Reader Unit}
    {opening : UInt8} {expected : String} {bytes rest : List UInt8} {a : α} :
    Reads (do
      if (← requireToken .endInValue) = opening then
        enclosed (content.map fun inner => do body inner (← remaining)) finish
      else refuse expected) bytes a rest ↔
    ∃ start, (requireToken .endInValue).Reads bytes opening start ∧
      ∃ inner, content = some inner ∧ ∃ mid,
        (body inner ((start.drop 1).length + 1)).Reads (start.drop 1) a mid ∧
        finish.Reads mid () rest := by
  rw [reads_bind]
  constructor
  · rintro ⟨b, start, token, read⟩
    by_cases opens : b = opening
    · rw [if_pos opens, reads_enclosed] at read
      obtain ⟨_, same, mid, read, finished⟩ := read
      obtain ⟨inner, rfl, rfl⟩ := Option.map_eq_some_iff.1 same
      obtain ⟨n, start', counted, read⟩ := reads_bind.1 read
      obtain ⟨rfl, rfl⟩ := reads_remaining.1 counted
      exact ⟨start, opens ▸ token, inner, rfl, mid, read, finished⟩
    · rw [if_neg opens] at read
      exact absurd read not_reads_refuse
  · rintro ⟨start, token, inner, rfl, mid, read, finished⟩
    refine ⟨_, start, token, ?_⟩
    rw [if_pos rfl, reads_enclosed]
    exact ⟨_, rfl, mid, reads_bind.2 ⟨_, _, reads_remaining.2 ⟨rfl, rfl⟩, read⟩, finished⟩

/-- An array is read from a bracket to the bracket that closes it. -/
theorem reads_array {item : Option (Reader α)} {bytes rest : List UInt8} {values : List α} :
    (array item).Reads bytes values rest ↔
      ∃ start, (requireToken .endInValue).Reads bytes 0x5B start ∧
        ∃ inner, item = some inner ∧ ∃ mid,
          (items inner ((start.drop 1).length + 1) true).Reads (start.drop 1) values mid ∧
          endArray.Reads mid () rest :=
  reads_container

/-- An object is read from a brace to the brace that closes it. -/
theorem reads_object {expected : String} {initial : α} {member : Option (String → α → Reader α)}
    {bytes rest : List UInt8} {a : α} :
    (object expected initial member).Reads bytes a rest ↔
      ∃ start, (requireToken .endInValue).Reads bytes 0x7B start ∧
        ∃ inner, member = some inner ∧ ∃ mid,
          (members inner ((start.drop 1).length + 1) true initial).Reads (start.drop 1) a mid ∧
          endObject.Reads mid () rest :=
  reads_container

/-! ### Items and members -/

/-- Items are read while there is another one, which fuel allows. -/
theorem reads_items_succ {item : Reader α} {fuel : Nat} {first : Bool} {bytes rest : List UInt8}
    {values : List α} :
    (items item (fuel + 1) first).Reads bytes values rest ↔
      ((nextItem first).Reads bytes false rest ∧ values = []) ∨
      ∃ value following mid mid', (nextItem first).Reads bytes true mid ∧
        item.Reads mid value mid' ∧ (items item fuel false).Reads mid' following rest ∧
        values = value :: following := by
  rw [items, reads_bind]
  constructor
  · rintro ⟨more, mid, next, read⟩
    cases more with
    | false =>
        obtain ⟨rfl, rfl⟩ := reads_pure.1 read
        exact .inl ⟨next, rfl⟩
    | true =>
        obtain ⟨value, mid', head, read⟩ := reads_bind.1 read
        obtain ⟨following, tail, rfl⟩ := reads_map.1 read
        exact .inr ⟨value, following, mid, mid', next, head, tail, rfl⟩
  · rintro (⟨next, rfl⟩ | ⟨value, following, mid, mid', next, head, tail, rfl⟩)
    · exact ⟨false, rest, next, reads_pure.2 ⟨rfl, rfl⟩⟩
    · exact ⟨true, mid, next, reads_bind.2 ⟨value, mid', head, reads_map.2 ⟨_, tail, rfl⟩⟩⟩

/-- Members are read while there is another name, and take the state along. -/
theorem reads_members_succ {member : String → α → Reader α} {fuel : Nat} {first : Bool} {a b : α}
    {bytes rest : List UInt8} :
    (members member (fuel + 1) first a).Reads bytes b rest ↔
      ((nextKey first).Reads bytes none rest ∧ a = b) ∨
      ∃ key mid c mid', (nextKey first).Reads bytes (some key) mid ∧
        (member key a).Reads mid c mid' ∧ (members member fuel false c).Reads mid' b rest := by
  rw [members, reads_bind]
  constructor
  · rintro ⟨key, mid, next, read⟩
    cases key with
    | none =>
        obtain ⟨rfl, rfl⟩ := reads_pure.1 read
        exact .inl ⟨next, rfl⟩
    | some key =>
        obtain ⟨c, mid', head, tail⟩ := reads_bind.1 read
        exact .inr ⟨key, mid, c, mid', next, head, tail⟩
  · rintro (⟨next, rfl⟩ | ⟨key, mid, c, mid', next, head, tail⟩)
    · exact ⟨none, rest, next, reads_pure.2 ⟨rfl, rfl⟩⟩
    · exact ⟨some key, mid, next, reads_bind.2 ⟨c, mid', head, tail⟩⟩

/-- Lists of items are read alike when the items are, by induction on the fuel. -/
theorem Carries.items (h : Carries f x y) (fuel : Nat) (first : Bool) :
    Carries (List.map f) (items x fuel first) (items y fuel first) := by
  induction fuel generalizing first with
  | zero => exact fun _ _ _ read => absurd read not_reads_fault
  | succ fuel ih =>
      intro bytes values rest read
      obtain ⟨next, rfl⟩ | ⟨value, following, mid, mid', next, head, tail, rfl⟩ :=
        reads_items_succ.1 read
      · exact reads_items_succ.2 (.inl ⟨next, rfl⟩)
      · exact reads_items_succ.2
          (.inr ⟨f value, following.map f, mid, mid', next, h head, ih false tail, rfl⟩)

/-- Lists of items that are read as images come from items that are, by induction on the fuel. -/
theorem Lifts.items (h : Lifts f x y) (fuel : Nat) (first : Bool) :
    Lifts (List.map f) (items x fuel first) (items y fuel first) := by
  induction fuel generalizing first with
  | zero => exact fun _ _ _ read => absurd read not_reads_fault
  | succ fuel ih =>
      intro bytes values rest read
      obtain ⟨next, same⟩ | ⟨b, following, mid, mid', next, head, tail, same⟩ :=
        reads_items_succ.1 read
      · rw [List.map_eq_nil_iff] at same
        exact reads_items_succ.2 (.inl ⟨next, same⟩)
      · obtain ⟨value, values', rfl, rfl, rfl⟩ := List.map_eq_cons_iff.1 same
        exact reads_items_succ.2
          (.inr ⟨value, values', mid, mid', next, h head, ih false tail, rfl⟩)

/-- Arrays are read alike when their items are. Two readers can then be compared at their leaves
only. -/
theorem Carries.array (h : Carries f x y) :
    Carries (List.map f) (array (some x)) (array (some y)) := by
  intro bytes values rest read
  obtain ⟨start, token, _, same, mid, read, finished⟩ := reads_array.1 read
  cases same
  exact reads_array.2 ⟨start, token, y, rfl, mid, h.items _ _ read, finished⟩

/-- Arrays that are read as images come from arrays of such items. -/
theorem Lifts.array (h : Lifts f x y) : Lifts (List.map f) (array (some x)) (array (some y)) := by
  intro bytes values rest read
  obtain ⟨start, token, _, same, mid, read, finished⟩ := reads_array.1 read
  cases same
  exact reads_array.2 ⟨start, token, x, rfl, mid, h.items _ _ read, finished⟩

/-- Members are read alike when each of them is and the states before them are. -/
theorem Carries.members {m : String → α → Reader α} {m' : String → β → Reader β}
    (h : ∀ key a, Carries f (m key a) (m' key (f a))) (fuel : Nat) (first : Bool) (a : α) :
    Carries f (members m fuel first a) (members m' fuel first (f a)) := by
  induction fuel generalizing first a with
  | zero => exact fun _ _ _ read => absurd read not_reads_fault
  | succ fuel ih =>
      intro bytes b rest read
      obtain ⟨next, rfl⟩ | ⟨key, mid, c, mid', next, head, tail⟩ := reads_members_succ.1 read
      · exact reads_members_succ.2 (.inl ⟨next, rfl⟩)
      · exact reads_members_succ.2
          (.inr ⟨key, mid, f c, mid', next, h key a head, ih false c tail⟩)

/-- Objects are read alike when their members are, and when they start with states that are. What is
said about other values need not agree. -/
theorem Carries.object {m : String → α → Reader α} {m' : String → β → Reader β}
    (h : ∀ key a, Carries f (m key a) (m' key (f a))) (expected expected' : String) (initial : α) :
    Carries f (object expected initial (some m)) (object expected' (f initial) (some m')) := by
  intro bytes a rest read
  obtain ⟨start, token, _, same, mid, read, finished⟩ := reads_object.1 read
  cases same
  exact reads_object.2 ⟨start, token, m', rfl, mid, Carries.members h _ _ _ read, finished⟩

/-- Reads the value of a member into a dictionary. -/
def readEntry (value : Reader α) (key : String) (d : Dict α) : Reader (Dict α) := do
  colon
  return Dict.insert key (← value) d

/-- An entry of a dictionary is read behind a colon, and inserted under its key. -/
theorem reads_readEntry {value : Reader α} {key : String} {d d' : Dict α}
    {bytes rest : List UInt8} :
    (readEntry value key d).Reads bytes d' rest ↔
      ∃ mid a, colon.Reads bytes () mid ∧ value.Reads mid a rest ∧ Dict.insert key a d = d' := by
  simp only [readEntry, reads_bind, reads_pure]
  constructor
  · rintro ⟨_, mid, colon, a, _, read, rfl, rfl⟩
    exact ⟨mid, a, colon, read, rfl⟩
  · rintro ⟨mid, a, colon, read, rfl⟩
    exact ⟨(), mid, colon, a, rest, read, rfl, rfl⟩

/-- Entries are read alike when their values are. -/
theorem Carries.readEntry (h : Carries f x y) (key : String) (d : Dict α) :
    Carries (Dict.mapValues f) (readEntry x key d) (readEntry y key (Dict.mapValues f d)) := by
  intro bytes d' rest read
  obtain ⟨mid, a, colon, value, rfl⟩ := reads_readEntry.1 read
  exact reads_readEntry.2 ⟨mid, f a, colon, h value, Dict.insert_mapValues f key a d⟩

end DocumentTable.Reader
