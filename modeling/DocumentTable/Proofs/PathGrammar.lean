import DocumentTable.Expression
import DocumentTable.Proofs.Except
import DocumentTable.Proofs.Numeral
import DocumentTable.Proofs.Occurrence

/-!
# The grammar of paths

A path is written as segments with dots between them. A segment is a name and the indexes behind it,
each of them between brackets. What is read is what is written in this way, and nothing else.

## Main definitions

* `WrittenIndex`, `WrittenSegment`, `WrittenPath`: a path as it is written, and its parts
* `PlainName`: a name that may be written as it stands
* `Path.Canonical`: a path that begins with a name and has only such names

## Main results

* `Path.parse_eq_ok_iff`: what is read is a written path, and its steps are the result
* `Path.Canonical.exists_written`: a canonical path is written by its text
* `Path.parse_text_iff_canonical`: canonical paths are those that are read from their own texts, and
  whatever is read is canonical

## Design notes

A position may be written with a plus sign and with zeros before its digits, so that a path has many
texts. One of them is the text that the path is shown by.
-/

namespace DocumentTable

/-! ### Written paths -/

/-- An index as it is written: digits that may follow a plus sign. -/
structure WrittenIndex where
  plus : Bool
  digits : List Char
  digits_ne_nil : digits ≠ []
  isDigit : ∀ c ∈ digits, c.isDigit = true
  /-- The position has 64 bits at most. -/
  value_lt : Nat.ofDigitChars 10 digits 0 < UInt64.size

/-- A name that may be written as it stands. -/
structure PlainName (name : String) : Prop where
  ne_empty : name ≠ ""
  dot_not_mem : '.' ∉ name.toList
  bracket_not_mem : '[' ∉ name.toList

/-- A name and the indexes behind it. -/
structure WrittenSegment where
  name : String
  indexes : List WrittenIndex
  plain : PlainName name

/-- The segments of a path, of which there is at least one. -/
structure WrittenPath where
  first : WrittenSegment
  rest : List WrittenSegment

namespace WrittenIndex

/-- What stands between the brackets of an index. -/
def inner (i : WrittenIndex) : List Char :=
  (if i.plus then ['+'] else []) ++ i.digits

/-- An index with its brackets. -/
def chars (i : WrittenIndex) : List Char :=
  '[' :: (i.inner ++ [']'])

/-- The position that an index is about. -/
def position (i : WrittenIndex) : UInt64 :=
  UInt64.ofNatLT (Nat.ofDigitChars 10 i.digits 0) i.value_lt

end WrittenIndex

namespace WrittenSegment

/-- A name with the indexes behind it. -/
def chars (s : WrittenSegment) : List Char :=
  s.name.toList ++ s.indexes.flatMap WrittenIndex.chars

/-- The steps of a segment: its name and then its positions. -/
def steps (s : WrittenSegment) : Path :=
  .name s.name :: s.indexes.map fun i => .index i.position

end WrittenSegment

namespace WrittenPath

/-- The text of a written path, with a dot before each segment but the first. -/
def text (w : WrittenPath) : String :=
  String.ofList (w.first.chars ++ w.rest.flatMap fun s => ['.'] ++ s.chars)

/-- The steps of a written path: those of its segments in order. -/
def steps (w : WrittenPath) : Path :=
  w.first.steps ++ w.rest.flatMap WrittenSegment.steps

end WrittenPath

/-! ### Indexes -/

/-- The digits that are read are all digits, and there are some. -/
theorem readDigits_eq_some_iff {text : List Char} {n : Nat} :
    readDigits text = some n ↔
      text ≠ [] ∧ (∀ c ∈ text, c.isDigit = true) ∧ Nat.ofDigitChars 10 text 0 = n := by
  have value : digitsValue text 0 = Nat.ofDigitChars 10 text 0 :=
    (Nat.ofDigitChars_eq_foldl ..).symm
  rw [readDigits, value, ← List.all_eq_true, ← List.isEmpty_eq_false_iff]
  cases text.isEmpty <;> cases text.all Char.isDigit <;> simp

namespace WrittenIndex

theorem readUnsigned_inner (i : WrittenIndex) :
    readUnsigned i.inner = some (Nat.ofDigitChars 10 i.digits 0) := by
  have digits := readDigits_eq_some_iff.2 ⟨i.digits_ne_nil, i.isDigit, rfl⟩
  rw [inner]
  cases i.plus with
  | true => exact digits
  | false => exact (readUnsigned_of_isDigit (List.all_eq_true.2 i.isDigit)).trans digits

/-- An index is read as its position, with a plus sign and with leading zeros as well as without. -/
theorem readPosition_inner (i : WrittenIndex) : Path.readPosition i.inner = some i.position := by
  rw [Path.readPosition, i.readUnsigned_inner, Option.bind_some, if_pos i.value_lt, position]
  exact congrArg some (UInt64.ofNatLT_eq_ofNat _).symm

/-- Between brackets are digits and signs only, so that no bracket or dot is found there. -/
theorem not_mem_inner (i : WrittenIndex) {c : Char} (plain : c.isDigit = false) (sign : c ≠ '+') :
    c ∉ i.inner := by
  rw [inner, List.mem_append, not_or]
  constructor
  · split
    · exact mt List.mem_singleton.1 sign
    · exact List.not_mem_nil
  · intro mem
    rw [i.isDigit c mem] at plain
    cases plain

end WrittenIndex

/-- A text that is read as an unsigned number is digits that may follow a plus sign. -/
theorem exists_of_readUnsigned {text : List Char} {n : Nat} (read : readUnsigned text = some n) :
    ∃ (plus : Bool) (digits : List Char), text = (if plus then ['+'] else []) ++ digits ∧
      readDigits digits = some n := by
  unfold readUnsigned at read
  split at read
  · next digits => exact ⟨true, digits, rfl, read⟩
  · exact ⟨false, text, rfl, read⟩

/-- What is read as a position is an index, as its number has room in 64 bits. -/
theorem exists_of_readPosition {text : List Char} {position : UInt64}
    (read : Path.readPosition text = some position) :
    ∃ i : WrittenIndex, i.inner = text ∧ i.position = position := by
  obtain ⟨n, unsigned, inRange⟩ := Option.bind_eq_some_iff.1 read
  obtain ⟨plus, digits, rfl, value⟩ := exists_of_readUnsigned unsigned
  obtain ⟨nonempty, isDigit, rfl⟩ := readDigits_eq_some_iff.1 value
  split at inRange
  · next small =>
      cases inRange
      exact ⟨⟨plus, digits, nonempty, isDigit, small⟩, rfl, UInt64.ofNatLT_eq_ofNat _⟩
  · cases inRange

namespace Path

/-- Without a closing bracket there is no index, whatever follows the opening one. -/
theorem readIndexes_unclosed (fuel : Nat) {text : List Char} (absent : ']' ∉ text) :
    readIndexes (fuel + 1) ('[' :: text) = .error .unclosedIndex := by
  have unclosed : splitOnce? [']'] ('[' :: text) = none :=
    splitOnce?_eq_none (List.mem_singleton_self _)
      (List.not_mem_cons_of_ne_of_not_mem (by decide) absent)
  rw [readIndexes, unclosed]
  exact List.cons_ne_nil _ _

/-- An index ends at the first closing bracket, and another one may follow. -/
theorem readIndexes_closed (fuel : Nat) {inner : List Char} (absent : ']' ∉ inner)
    (rest : List Char) :
    readIndexes (fuel + 1) ('[' :: (inner ++ ']' :: rest)) =
      match readPosition inner with
      | none => .error .badIndex
      | some position =>
        if rest.head?.all (· = '[') then (readIndexes fuel rest).map (.index position :: ·)
        else .error .trailingCharacters := by
  have closed : splitOnce? [']'] ('[' :: (inner ++ ']' :: rest)) = some ('[' :: inner, rest) :=
    splitOnce?_singleton_eq_some.2 ⟨rfl, List.not_mem_cons_of_ne_of_not_mem (by decide) absent⟩
  rw [readIndexes, closed]
  · rfl
  · exact List.cons_ne_nil _ _

/-- Behind an index is nothing or another one. -/
theorem opens_chars (indexes : List WrittenIndex) :
    (indexes.flatMap WrittenIndex.chars).head?.all (· = '[') = true := by
  cases indexes <;> rfl

/-- Indexes are read as their positions, by induction on them. Each has characters of its own, so
the length is enough fuel. -/
theorem readIndexes_chars (indexes : List WrittenIndex) {fuel : Nat}
    (enough : (indexes.flatMap WrittenIndex.chars).length ≤ fuel) :
    readIndexes fuel (indexes.flatMap WrittenIndex.chars) =
      .ok (indexes.map fun i => .index i.position) := by
  induction indexes generalizing fuel with
  | nil => cases fuel <;> rfl
  | cons i rest ih =>
      rw [List.flatMap_cons, WrittenIndex.chars, List.cons_append, List.append_assoc,
        List.singleton_append] at enough ⊢
      cases fuel with
      | zero => cases enough
      | succ fuel =>
          rw [List.length_cons, List.length_append, List.length_cons] at enough
          rw [readIndexes_closed fuel (i.not_mem_inner rfl (by decide)), i.readPosition_inner]
          dsimp only
          rw [if_pos (opens_chars rest), ih (by omega)]
          rfl

/-- What is read as indexes are indexes, by induction on the fuel. -/
theorem exists_of_readIndexes {fuel : Nat} {text : List Char} {steps : Path}
    (read : readIndexes fuel text = .ok steps) (opens : text.head?.all (· = '[') = true) :
    ∃ indexes : List WrittenIndex, indexes.flatMap WrittenIndex.chars = text ∧
      indexes.map (fun i => .index i.position) = steps := by
  induction fuel generalizing text steps with
  | zero =>
      cases text with
      | nil => cases read; exact ⟨[], rfl, rfl⟩
      | cons c text => cases read
  | succ fuel ih =>
      cases text with
      | nil => cases read; exact ⟨[], rfl, rfl⟩
      | cons c text =>
          obtain rfl : c = '[' := of_decide_eq_true opens
          -- an index that is not closed is a fault, and one that is leaves a shorter text
          by_cases closed : ']' ∈ text
          · obtain ⟨inner, rest, rfl, absent⟩ := List.eq_append_cons_of_mem closed
            rw [readIndexes_closed fuel absent] at read
            cases position : readPosition inner with
            | none => rw [position] at read; cases read
            | some position =>
                obtain ⟨i, rfl, rfl⟩ := exists_of_readPosition position
                rw [i.readPosition_inner] at read
                dsimp only at read
                split at read
                · next opensNext =>
                    obtain ⟨others, readRest, rfl⟩ := exists_of_except_map read
                    obtain ⟨indexes, rfl, rfl⟩ := ih readRest opensNext
                    refine ⟨i :: indexes, ?_, rfl⟩
                    rw [List.flatMap_cons, WrittenIndex.chars, List.cons_append, List.append_assoc,
                      List.singleton_append]
                · cases read
          · rw [readIndexes_unclosed fuel closed] at read
            cases read

/-! ### Segments -/

/-- Every text is a name and what begins with the first opening bracket, if there is one. The name
may be empty, which is then a fault. -/
theorem exists_name_append (segment : List Char) :
    ∃ name rest, segment = name ++ rest ∧ '[' ∉ name ∧ rest.head?.all (· = '[') = true := by
  by_cases opens : '[' ∈ segment
  · obtain ⟨name, rest, rfl, absent⟩ := List.eq_append_cons_of_mem opens
    exact ⟨name, '[' :: rest, rfl, absent, rfl⟩
  · exact ⟨segment, [], (List.append_nil _).symm, opens, rfl⟩

/-- The name of a segment ends where its first index begins, and it must not be empty. -/
theorem readSegment_append {name rest : List Char} (absent : '[' ∉ name)
    (opens : rest.head?.all (· = '[') = true) :
    readSegment (name ++ rest) =
      if name.isEmpty then .error .emptyName
      else (readIndexes rest.length rest).map (.name (String.ofList name) :: ·) := by
  have plain : ∀ c ∈ name, decide (c ≠ '[') = true :=
    fun c mem => decide_eq_true fun same => absent (same ▸ mem)
  have ends : rest.takeWhile (· ≠ '[') = [] ∧ rest.dropWhile (· ≠ '[') = rest := by
    cases rest with
    | nil => exact ⟨rfl, rfl⟩
    | cons c rest =>
        obtain rfl : c = '[' := of_decide_eq_true opens
        exact ⟨rfl, rfl⟩
  rw [readSegment, List.takeWhile_append_of_pos plain, List.dropWhile_append_of_pos plain, ends.1,
    ends.2, List.append_nil]

/-- A segment is read as its steps. -/
theorem readSegment_chars (s : WrittenSegment) : readSegment s.chars = .ok s.steps := by
  have named : s.name.toList.isEmpty = false := by
    simpa using s.plain.ne_empty
  rw [WrittenSegment.chars, readSegment_append s.plain.bracket_not_mem (opens_chars _), named,
    readIndexes_chars _ (Nat.le_refl _), String.ofList_toList]
  rfl

/-- What is read as a segment is one. That it has no dot comes from the split at dots. -/
theorem exists_of_readSegment {segment : List Char} {steps : Path} (undotted : '.' ∉ segment)
    (read : readSegment segment = .ok steps) :
    ∃ s : WrittenSegment, s.chars = segment ∧ s.steps = steps := by
  obtain ⟨name, rest, rfl, absent, opens⟩ := exists_name_append segment
  rw [readSegment_append absent opens] at read
  split at read
  · cases read
  · next named =>
      obtain ⟨others, readRest, rfl⟩ := exists_of_except_map read
      obtain ⟨indexes, rfl, rfl⟩ := exists_of_readIndexes readRest opens
      have chars : (String.ofList name).toList = name := String.toList_ofList
      refine ⟨⟨String.ofList name, indexes, ?_, ?_, ?_⟩, congrArg (· ++ _) chars, rfl⟩
      · simpa using named
      · rw [chars]
        exact fun mem => undotted (List.mem_append_left _ mem)
      · rwa [chars]

/-- A segment has no dot. -/
theorem dot_not_mem_chars (s : WrittenSegment) : '.' ∉ s.chars := by
  rw [WrittenSegment.chars, List.mem_append, not_or]
  refine ⟨s.plain.dot_not_mem, fun mem => ?_⟩
  obtain ⟨i, -, mem⟩ := List.mem_flatMap.1 mem
  rw [WrittenIndex.chars, List.mem_cons, List.mem_append, List.mem_singleton] at mem
  rcases mem with same | mem | same
  · cases same
  · exact i.not_mem_inner rfl (by decide) mem
  · cases same

/-- Segments are read as their steps, one segment after the other. -/
theorem readSegments_chars (segments : List WrittenSegment) :
    readSegments (segments.map WrittenSegment.chars) =
      .ok (segments.flatMap WrittenSegment.steps) := by
  induction segments with
  | nil => rfl
  | cons s rest ih =>
      rw [List.map_cons, readSegments, readSegment_chars, ih]
      rfl

/-- What is read as segments are segments, by induction on the pieces. -/
theorem exists_of_readSegments {pieces : List (List Char)} {steps : Path}
    (undotted : ∀ piece ∈ pieces, '.' ∉ piece) (read : readSegments pieces = .ok steps) :
    ∃ segments : List WrittenSegment, segments.map WrittenSegment.chars = pieces ∧
      segments.flatMap WrittenSegment.steps = steps := by
  induction pieces generalizing steps with
  | nil =>
      cases read
      exact ⟨[], rfl, rfl⟩
  | cons piece pieces ih =>
      rw [List.forall_mem_cons] at undotted
      rw [readSegments] at read
      split at read
      · cases read
      · next first readFirst =>
          obtain ⟨s, rfl, rfl⟩ := exists_of_readSegment undotted.1 readFirst
          obtain ⟨others, readRest, rfl⟩ := exists_of_except_map read
          obtain ⟨segments, rfl, rfl⟩ := ih undotted.2 readRest
          exact ⟨s :: segments, rfl, rfl⟩

/-! ### Paths -/

/-- What is read is a written path, and its steps are the result. A text is a written path in one
way at most, since its steps are the result. -/
theorem parse_eq_ok_iff {text : String} {path : Path} :
    parse text = .ok path ↔ ∃ w : WrittenPath, w.text = text ∧ w.steps = path := by
  constructor
  · intro read
    obtain ⟨first, rest, whole, absent, others⟩ := exists_pieces '.' text.toList
    rw [parse, whole, splitAll_pieces (List.mem_singleton_self _) absent others] at read
    obtain ⟨segments, pieces, rfl⟩ :=
      exists_of_readSegments (List.forall_mem_cons.2 ⟨absent, others⟩) read
    cases segments with
    | nil => cases pieces
    | cons s segments =>
        obtain ⟨rfl, rfl⟩ := List.cons.inj pieces
        refine ⟨⟨s, segments⟩, ?_, rfl⟩
        rw [WrittenPath.text, ← String.ofList_toList (s := text), whole, List.flatMap_map]
  · rintro ⟨w, rfl, rfl⟩
    have pieces : splitAll ['.'] w.text.toList =
        (w.first :: w.rest).map WrittenSegment.chars := by
      rw [WrittenPath.text, String.toList_ofList, ← List.flatMap_map]
      refine splitAll_pieces (List.mem_singleton_self _) (dot_not_mem_chars _) ?_
      exact List.forall_mem_map.2 fun s _ => dot_not_mem_chars s
    rw [parse, pieces, readSegments_chars]
    rfl

/-- A text that is no path is refused together with the text. -/
theorem parseOrRefuse_eq (text : String) :
    parseOrRefuse text = (parse text).mapError (.invalidPath text) := by
  rw [parseOrRefuse]
  cases parse text <;> rfl

theorem parseOrRefuse_eq_ok_iff {text : String} {path : Path} :
    parseOrRefuse text = .ok path ↔ ∃ w : WrittenPath, w.text = text ∧ w.steps = path := by
  rw [parseOrRefuse_eq, except_mapError_ok_iff, parse_eq_ok_iff]

/-! ### Canonical paths -/

/-- A path that begins with a name and all of whose names may be written as they stand. -/
structure Canonical (path : Path) : Prop where
  startsWithName : ∃ name rest, path = .name name :: rest
  plain : ∀ name ∈ pathNames path, PlainName name

end Path

/-- The index that is written by the digits of a position. -/
def WrittenIndex.ofPosition (i : UInt64) : WrittenIndex where
  plus := false
  digits := Nat.toDigits 10 i.toNat
  digits_ne_nil := Nat.toDigits_ne_nil
  isDigit := List.all_eq_true.1 (all_isDigit_toDigits _)
  value_lt := by
    rw [Nat.ofDigitChars_ten_toDigits]
    exact i.toNat_lt_size

theorem WrittenIndex.position_ofPosition (i : UInt64) : (ofPosition i).position = i := by
  have read := (ofPosition i).readPosition_inner
  have inner : (ofPosition i).inner = Nat.toDigits 10 i.toNat := rfl
  rw [inner, Path.readPosition_toDigits] at read
  exact (Option.some.inj read).symm

/-- The text of an index is its digits between brackets. -/
theorem WrittenIndex.chars_ofPosition (i : UInt64) :
    (ofPosition i).chars = (Step.text (ν := String) id false (.index i)).toList := by
  have digits : (toString i.toNat).toList = Nat.toDigits 10 i.toNat := Nat.toList_repr
  rw [Step.text, String.toList_append, String.toList_append, digits]
  rfl

theorem WrittenSegment.pathNames_steps (s : WrittenSegment) : pathNames s.steps = [s.name] := by
  have none : ∀ indexes : List WrittenIndex,
      pathNames (indexes.map fun i => (.index i.position : Step String)) = [] := by
    intro indexes
    rw [pathNames, List.filterMap_map]
    exact List.filterMap_eq_nil_iff.2 fun _ _ => rfl
  rw [steps, pathNames_cons_name, none]

namespace Path

/-- The steps of a written path are canonical: it starts with a name, and no name has a dot or an
opening bracket. -/
theorem canonical_steps (w : WrittenPath) : w.steps.Canonical where
  startsWithName := ⟨w.first.name, _, rfl⟩
  plain := by
    intro name mem
    rw [WrittenPath.steps, ← List.flatMap_cons, pathNames, List.filterMap_flatMap,
      List.mem_flatMap] at mem
    obtain ⟨s, -, mem⟩ := mem
    change name ∈ pathNames s.steps at mem
    rw [s.pathNames_steps, List.mem_singleton] at mem
    exact mem ▸ s.plain

/-- Steps behind others are written as indexes and then as segments, each after a dot, by induction
on the steps. -/
theorem exists_segments {path : Path} (plain : ∀ name ∈ pathNames path, PlainName name) :
    ∃ (indexes : List WrittenIndex) (segments : List WrittenSegment),
      (indexes.flatMap WrittenIndex.chars) ++ (segments.flatMap fun s => ['.'] ++ s.chars) =
          (stepsText id false path).toList ∧
        (indexes.map fun i => .index i.position) ++ segments.flatMap WrittenSegment.steps =
          path := by
  induction path with
  | nil => exact ⟨[], [], rfl, rfl⟩
  | cons step path ih =>
      cases step with
      | index i =>
          obtain ⟨indexes, segments, text, rfl⟩ := ih plain
          refine ⟨.ofPosition i :: indexes, segments, ?_, ?_⟩
          · rw [stepsText, String.toList_append, ← text, ← WrittenIndex.chars_ofPosition,
              List.flatMap_cons, List.append_assoc]
          · rw [List.map_cons, WrittenIndex.position_ofPosition]
            rfl
      | name name =>
          rw [pathNames_cons_name, List.forall_mem_cons] at plain
          -- the indexes that come first belong to the segment of this name
          obtain ⟨indexes, segments, text, rfl⟩ := ih plain.2
          refine ⟨[], ⟨name, indexes, plain.1⟩ :: segments, ?_, rfl⟩
          rw [stepsText, String.toList_append, ← text, List.flatMap_cons, WrittenSegment.chars]
          simp [Step.text]

/-- A canonical path is written by its text, with its indexes in plain digits. -/
theorem Canonical.exists_written {path : Path} (canonical : path.Canonical) :
    ∃ w : WrittenPath, w.text = path.text ∧ w.steps = path := by
  obtain ⟨name, rest, rfl⟩ := canonical.startsWithName
  have plain := canonical.plain
  rw [pathNames_cons_name, List.forall_mem_cons] at plain
  obtain ⟨indexes, segments, written, rfl⟩ := exists_segments plain.2
  refine ⟨⟨⟨name, indexes, plain.1⟩, segments⟩, ?_, rfl⟩
  rw [WrittenPath.text, WrittenSegment.chars, List.append_assoc, written, String.ofList_append,
    String.ofList_toList, String.ofList_toList]
  rfl

/-- The paths that are read from their own texts are the canonical ones. All paths that are read
from any text are, so that each of them is read from its text again. Paths that are made of steps
need not be: a name with a dot would be read as two. -/
theorem parse_text_iff_canonical :
    (∀ path : Path, parseOrRefuse path.text = .ok path ↔ path.Canonical) ∧
      ∀ (text : String) (path : Path), parseOrRefuse text = .ok path →
        path.Canonical ∧ parseOrRefuse path.text = .ok path := by
  have isCanonical {text : String} {path : Path} (read : parseOrRefuse text = .ok path) :
      path.Canonical := by
    obtain ⟨w, -, rfl⟩ := parseOrRefuse_eq_ok_iff.1 read
    exact canonical_steps w
  have readAgain {path : Path} (canonical : path.Canonical) :
      parseOrRefuse path.text = .ok path :=
    parseOrRefuse_eq_ok_iff.2 canonical.exists_written
  exact ⟨fun path => ⟨isCanonical, readAgain⟩,
    fun text path read => ⟨isCanonical read, readAgain (isCanonical read)⟩⟩

/-- A path whose text is not the one that it was read from. -/
theorem parse_text_iff_canonical_signed : ∃ (text : String) (path : Path),
    text = "é[+07].b]" ∧ path.text = "é[7].b]" ∧ parseOrRefuse text = .ok path ∧
      path.Canonical ∧ parseOrRefuse path.text = .ok path := by
  have read : parseOrRefuse "é[+07].b]" = .ok [.name "é", .index 7, .name "b]"] := rfl
  exact ⟨_, _, rfl, rfl, read, parse_text_iff_canonical.2 _ _ read⟩

end Path

end DocumentTable
