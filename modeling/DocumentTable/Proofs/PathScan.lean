import DocumentTable.Proofs.PathGrammar

/-!
# Reading paths by byte offsets

A text is kept as bytes, and its parts are cut out at byte offsets. Nothing can be cut out at an
offset behind the end of the text or inside a character. Here a path is read with such offsets, and
all the offsets that are used are good ones, whatever the text is.

## Main definitions

* `cut?`: the part of a text between two byte offsets
* `Path.indexTurn?`, `Path.scanIndexes?`: one turn of reading indexes, and all turns
* `Path.scan?`: the path of a text, when every part can be cut out

## Main results

* `Path.utf8ByteSize_lt_of_indexTurn?`: each turn leaves a shorter text
* `Path.scan?_eq_parse`: every part can be cut out, and the result is that of reading characters
* `Path.parse_exact`: what is read, what is refused, and that no part is missing

## Design notes

A part that cannot be cut out makes the whole result `none`, so that it is told apart from a text
that is refused.
-/

namespace DocumentTable

/-! ### Parts between byte offsets -/

/-- The part of a text between two byte offsets. There is none if they are out of order or if one
of them lies behind the end or inside a character. -/
def cut? (text : String) (start stop : Nat) : Option String :=
  if valid : start ≤ stop ∧ String.Pos.Raw.IsValid text ⟨start⟩ ∧
      String.Pos.Raw.IsValid text ⟨stop⟩ then
    some (text.extract ⟨⟨start⟩, valid.2.1⟩ ⟨⟨stop⟩, valid.2.2⟩)
  else none

/-- The second byte of a character is no place to cut. -/
example : cut? "é" 1 2 = none := by decide

/-- The byte offset of the first occurrence of a character. -/
def offsetOf? (c : Char) (text : String) : Option Nat :=
  (splitOnce? [c] text.toList).map fun (before, _) => (String.ofList before).utf8ByteSize

/-- What stands between two texts is cut out at their ends. Offsets count bytes, so that they have
to be ends of characters. -/
theorem cut?_append (a b c : String) :
    cut? (a ++ b ++ c) a.utf8ByteSize (a.utf8ByteSize + b.utf8ByteSize) = some b := by
  have start : String.Pos.Raw.IsValid (a ++ b ++ c) ⟨a.utf8ByteSize⟩ :=
    String.Pos.Raw.isValid_iff_exists_append.2 ⟨a, b ++ c, String.append_assoc, rfl⟩
  have stop : String.Pos.Raw.IsValid (a ++ b ++ c) ⟨a.utf8ByteSize + b.utf8ByteSize⟩ :=
    String.Pos.Raw.isValid_iff_exists_append.2
      ⟨a ++ b, c, rfl, by simp [String.Pos.Raw.ext_iff]⟩
  have bytes : (a ++ b ++ c).toByteArray =
      a.toByteArray ++ (b.toByteArray ++ c.toByteArray) := by
    rw [String.append_assoc, String.toByteArray_append, String.toByteArray_append]
  rw [cut?, dif_pos ⟨Nat.le_add_right _ _, start, stop⟩, Option.some_inj,
    ← String.toByteArray_inj, String.toByteArray_extract, bytes]
  calc (a.toByteArray ++ (b.toByteArray ++ c.toByteArray)).extract
        (a.toByteArray.size + 0) (a.toByteArray.size + b.toByteArray.size)
      = (b.toByteArray ++ c.toByteArray).extract 0 b.toByteArray.size :=
        ByteArray.extract_append_size_add
    _ = b.toByteArray := ByteArray.extract_append_eq_left rfl

/-- The end of a text is cut out behind its start. -/
theorem cut?_end (a b : String) :
    cut? (a ++ b) a.utf8ByteSize (a ++ b).utf8ByteSize = some b := by
  have whole := cut?_append a b ""
  rwa [String.append_empty, ← String.utf8ByteSize_append] at whole

/-- The start of a text is cut out before its end. -/
theorem cut?_start (a b : String) : cut? (a ++ b) 0 a.utf8ByteSize = some a := by
  have whole := cut?_append "" a b
  rwa [String.empty_append, String.utf8ByteSize_empty, Nat.zero_add] at whole

/-- A part has as many bytes as lie between its offsets, and the offsets lie within the text. -/
theorem utf8ByteSize_of_cut? {text part : String} {start stop : Nat}
    (found : cut? text start stop = some part) :
    start ≤ stop ∧ stop ≤ text.utf8ByteSize ∧ part.utf8ByteSize = stop - start := by
  unfold cut? at found
  split at found
  · next valid =>
      cases found
      have inside : stop ≤ text.utf8ByteSize := valid.2.2.le_utf8ByteSize
      refine ⟨valid.1, inside, ?_⟩
      rw [← String.size_toByteArray, String.toByteArray_extract, ByteArray.size_extract,
        String.size_toByteArray, Nat.min_eq_left inside]
  · cases found

/-- A character occurs first where the text before ends that lacks it. -/
theorem offsetOf?_append {c : Char} {before : List Char} (absent : c ∉ before)
    (after : List Char) :
    offsetOf? c (String.ofList (before ++ c :: after)) =
      some (String.ofList before).utf8ByteSize := by
  rw [offsetOf?, String.toList_ofList, splitOnce?_singleton_eq_some.2 ⟨rfl, absent⟩]
  rfl

theorem offsetOf?_eq_none {c : Char} {text : List Char} (absent : c ∉ text) :
    offsetOf? c (String.ofList text) = none := by
  rw [offsetOf?, String.toList_ofList, splitOnce?_eq_none (List.mem_singleton_self c) absent]
  rfl

/-! ### Indexes -/

/-- What a turn at the indexes of a segment finds. -/
inductive IndexTurn where
  | done
  | fault (fault : PathFault)
  | index (position : UInt64) (rest : String)

namespace Path

/-- One turn of reading indexes. -/
def indexTurn? (text : String) : Option IndexTurn :=
  if text.isEmpty then some .done
  else
    match offsetOf? ']' text with
    | none => some (.fault .unclosedIndex)
    | some close => do
      let inner ← cut? text 1 close
      match readPosition inner.toList with
      | none => return .fault .badIndex
      | some position =>
        let rest ← cut? text (close + 1) text.utf8ByteSize
        return if rest.toList.head?.all (· = '[') then .index position rest
          else .fault .trailingCharacters

/-- A turn that finds an index leaves a shorter text, so that the loop over indexes ends. -/
theorem utf8ByteSize_lt_of_indexTurn? {text rest : String} {position : UInt64}
    (turn : indexTurn? text = some (.index position rest)) :
    rest.utf8ByteSize < text.utf8ByteSize := by
  unfold indexTurn? at turn
  split at turn
  · cases turn
  · split at turn
    · cases turn
    · next close _ =>
        obtain ⟨inner, -, turn⟩ := Option.bind_eq_some_iff.1 turn
        split at turn
        · cases turn
        · obtain ⟨part, isRest, turn⟩ := Option.bind_eq_some_iff.1 turn
          obtain ⟨inside, -, size⟩ := utf8ByteSize_of_cut? isRest
          split at turn
          · cases turn
            omega
          · cases turn

/-- The indexes of a segment, turn by turn. -/
def scanIndexes? (text : String) : Option (Except PathFault Path) :=
  match _turn : indexTurn? text with
  | none => none
  | some .done => some (.ok [])
  | some (.fault fault) => some (.error fault)
  | some (.index position rest) => (scanIndexes? rest).map (·.map (.index position :: ·))
termination_by text.utf8ByteSize
decreasing_by exact utf8ByteSize_lt_of_indexTurn? _turn

/-- The name and the indexes of a segment, cut apart at the first opening bracket. -/
def cutSegment? (segment : String) : Option (String × String) :=
  match offsetOf? '[' segment with
  | none => some (segment, "")
  | some opening => do
    return (← cut? segment 0 opening, ← cut? segment opening segment.utf8ByteSize)

/-- The steps of a segment. -/
def scanSegment? (segment : String) : Option (Except PathFault Path) := do
  let (name, indexes) ← cutSegment? segment
  if name.isEmpty then return .error .emptyName
  else return (← scanIndexes? indexes).map (.name name :: ·)

/-- The steps of segments. The first one at fault decides. -/
def scanSegments? : List String → Option (Except PathFault Path)
  | [] => some (.ok [])
  | segment :: rest =>
    match scanSegment? segment with
    | none => none
    | some (.error fault) => some (.error fault)
    | some (.ok steps) => (scanSegments? rest).map (·.map (steps ++ ·))

/-- The path of a text, or why there is none, when every part can be cut out. -/
def scan? (text : String) : Option (Except PathFault Path) :=
  scanSegments? ((splitAll ['.'] text.toList).map String.ofList)

/-! ### No part is missing -/

theorem indexTurn?_nil : indexTurn? (String.ofList []) = some .done :=
  rfl

/-- Without a closing bracket nothing is cut out, and the turn is a fault. -/
theorem indexTurn?_unclosed {text : List Char} (absent : ']' ∉ text) :
    indexTurn? (String.ofList ('[' :: text)) = some (.fault .unclosedIndex) := by
  have unclosed : offsetOf? ']' (String.ofList ('[' :: text)) = none :=
    offsetOf?_eq_none (List.not_mem_cons_of_ne_of_not_mem (by decide) absent)
  have nonempty : (String.ofList ('[' :: text)).isEmpty = false := by
    simp
  rw [indexTurn?, unclosed, nonempty]
  rfl

/-- What stands between two brackets and what stands behind them can be cut out. -/
theorem cut?_index (inner rest : List Char) {text : String} {close : Nat}
    (isText : text = String.ofList ('[' :: (inner ++ ']' :: rest)))
    (isClose : close = (String.ofList ('[' :: inner)).utf8ByteSize) :
    cut? text 1 close = some (String.ofList inner) ∧
      cut? text (close + 1) text.utf8ByteSize = some (String.ofList rest) := by
  have parts : text = "[" ++ String.ofList inner ++ "]" ++ String.ofList rest := by
    rw [isText, ← List.cons_append, String.ofList_append, String.ofList_cons, String.ofList_cons,
      ← String.append_assoc]
    rfl
  have size : close = "[".utf8ByteSize + (String.ofList inner).utf8ByteSize := by
    rw [isClose, String.ofList_cons, String.utf8ByteSize_append]
    rfl
  constructor
  · rw [parts, size, String.append_assoc]
    exact cut?_append _ _ _
  · have behind := cut?_end ("[" ++ String.ofList inner ++ "]") (String.ofList rest)
    rwa [← parts, String.utf8ByteSize_append, String.utf8ByteSize_append, ← size] at behind

/-- Behind an opening bracket a turn finds what stands before the first closing bracket. -/
theorem indexTurn?_closed {inner : List Char} (absent : ']' ∉ inner) (rest : List Char) :
    indexTurn? (String.ofList ('[' :: (inner ++ ']' :: rest))) =
      some (match readPosition inner with
        | none => .fault .badIndex
        | some position =>
          if rest.head?.all (· = '[') then .index position (String.ofList rest)
          else .fault .trailingCharacters) := by
  have before : ']' ∉ '[' :: inner := List.not_mem_cons_of_ne_of_not_mem (by decide) absent
  have closing : offsetOf? ']' (String.ofList ('[' :: (inner ++ ']' :: rest))) =
      some (String.ofList ('[' :: inner)).utf8ByteSize := by
    rw [← List.cons_append, offsetOf?_append before]
  have nonempty : ¬ (String.ofList ('[' :: (inner ++ ']' :: rest))).isEmpty = true := by
    simp
  obtain ⟨cutInner, cutRest⟩ := cut?_index inner rest rfl rfl
  rw [indexTurn?, if_neg nonempty, closing]
  dsimp only
  rw [cutInner, cutRest, Option.bind_eq_bind, Option.bind_some, String.toList_ofList]
  cases readPosition inner with
  | none => rfl
  | some position =>
      dsimp only
      rw [Option.bind_some, String.toList_ofList]
      rfl

/-! ### Segments and paths -/

theorem scanIndexes?_eq_bind (text : String) :
    scanIndexes? text = (indexTurn? text).bind fun
      | .done => some (.ok [])
      | .fault fault => some (.error fault)
      | .index position rest => (scanIndexes? rest).map (·.map (.index position :: ·)) := by
  rw [scanIndexes?]
  split <;> next turn => rw [turn]; rfl

/-- Indexes are read in the same way as characters are, by induction on the fuel, of which each
index takes one. -/
theorem scanIndexes?_eq {text : List Char} (opens : text.head?.all (· = '[') = true) {fuel : Nat}
    (enough : text.length ≤ fuel) :
    scanIndexes? (String.ofList text) = some (readIndexes fuel text) := by
  induction fuel generalizing text with
  | zero =>
      cases List.length_eq_zero_iff.1 (Nat.le_zero.1 enough)
      rw [scanIndexes?_eq_bind, indexTurn?_nil]
      rfl
  | succ fuel ih =>
      cases text with
      | nil =>
          rw [scanIndexes?_eq_bind, indexTurn?_nil]
          rfl
      | cons c text =>
          obtain rfl : c = '[' := of_decide_eq_true opens
          -- an index that is not closed ends both, each with the same fault
          by_cases closed : ']' ∈ text
          · obtain ⟨inner, rest, rfl, absent⟩ := List.eq_append_cons_of_mem closed
            rw [scanIndexes?_eq_bind, indexTurn?_closed absent, readIndexes_closed fuel absent,
              Option.bind_some]
            cases readPosition inner with
            | none => rfl
            | some position =>
                have shorter : rest.length ≤ fuel := by
                  rw [List.length_cons, List.length_append, List.length_cons] at enough
                  omega
                by_cases opensNext : rest.head?.all (· = '[') = true
                · simp only [if_pos opensNext]
                  rw [ih opensNext shorter]
                  rfl
                · simp only [if_neg opensNext]
          · rw [scanIndexes?_eq_bind, indexTurn?_unclosed closed, readIndexes_unclosed fuel closed]
            rfl

theorem cutSegment?_append {name rest : List Char} (absent : '[' ∉ name)
    (opens : rest.head?.all (· = '[') = true) :
    cutSegment? (String.ofList (name ++ rest)) =
      some (String.ofList name, String.ofList rest) := by
  cases rest with
  | nil =>
      rw [cutSegment?, List.append_nil, offsetOf?_eq_none absent]
  | cons c rest =>
      obtain rfl : c = '[' := of_decide_eq_true opens
      have start := cut?_start (String.ofList name) (String.ofList ('[' :: rest))
      have stop := cut?_end (String.ofList name) (String.ofList ('[' :: rest))
      rw [← String.ofList_append] at start stop
      rw [cutSegment?, offsetOf?_append absent]
      dsimp only
      rw [start, stop]
      rfl

/-- A segment is read in the same way as its characters are: its name up to the first bracket, and
then its indexes. -/
theorem scanSegment?_eq (segment : List Char) :
    scanSegment? (String.ofList segment) = some (readSegment segment) := by
  obtain ⟨name, rest, rfl, absent, opens⟩ := exists_name_append segment
  rw [scanSegment?, cutSegment?_append absent opens, readSegment_append absent opens,
    Option.bind_eq_bind, Option.bind_some]
  dsimp only
  have same : (String.ofList name).isEmpty = name.isEmpty := by
    rw [Bool.eq_iff_iff]
    simp
  rw [same, scanIndexes?_eq opens (Nat.le_refl _)]
  cases name.isEmpty <;> rfl

theorem scanSegments?_eq (segments : List (List Char)) :
    scanSegments? (segments.map String.ofList) = some (readSegments segments) := by
  induction segments with
  | nil => rfl
  | cons segment rest ih =>
      rw [List.map_cons, scanSegments?, readSegments, scanSegment?_eq, ih]
      cases readSegment segment <;> rfl

/-- Every part can be cut out, and the result is that of reading characters. No offset is ever
outside of the text or inside of a character. -/
theorem scan?_eq_parse (text : String) : scan? text = some (parse text) :=
  scanSegments?_eq _

/-- A text is read if and only if it is a written path, and then its steps are the result. Any other
text is refused and named in the refusal. Reading by byte offsets cuts out parts that are there
only, and each turn at the indexes of a segment leaves a shorter text. The text may be any, with
characters of several bytes among its names. -/
theorem parse_exact (text : String) :
    (∀ path, parseOrRefuse text = .ok path ↔ ∃ w : WrittenPath, w.text = text ∧ w.steps = path) ∧
      ((∃ w : WrittenPath, w.text = text) ∨
        ∃ fault, parseOrRefuse text = .error (.invalidPath text fault)) ∧
      (scan? text).map (·.mapError (.invalidPath text)) = some (parseOrRefuse text) ∧
      ∀ part position rest, indexTurn? part = some (.index position rest) →
        rest.utf8ByteSize < part.utf8ByteSize := by
  refine ⟨fun path => parseOrRefuse_eq_ok_iff, ?_, ?_,
    fun part position rest => utf8ByteSize_lt_of_indexTurn?⟩
  · cases read : parseOrRefuse text with
    | ok path =>
        obtain ⟨w, isText, -⟩ := parseOrRefuse_eq_ok_iff.1 read
        exact .inl ⟨w, isText⟩
    | error cause =>
        rw [parseOrRefuse_eq] at read
        cases fault : parse text with
        | ok path => rw [fault] at read; cases read
        | error fault => rw [fault] at read; cases read; exact .inr ⟨_, rfl⟩
  · rw [scan?_eq_parse, parseOrRefuse_eq, Option.map_some]

end Path

end DocumentTable
