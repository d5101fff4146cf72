import DocumentTable.Proofs.Decimal
import DocumentTable.Proofs.Grammar
import DocumentTable.Store.Expression
import DocumentTable.Update.Clause

/-!
# What a store reads in the text of an update

A store reads updates with a few splits of their text. In the text of compiled clauses these find
each assignment and each removal, where of an assigned value no more is read than what stands before
its first comma.

## Main definitions

* `inReference`, `inValue`: the characters of references, and those of assigned values
* `AssignedValue.opening`, `AssignedValue.others`: the text before the first comma, and the pieces
  of text behind the commas

## Main results

* `Store.UpdateText.ofText_text`: what is read in the text of clauses
* `PlacedPath.text_eq_text_iff`, `AssignedValue.opening_eq_text_iff`: a target is read as the
  placeholder of a name when it is nothing else, and a value as the placeholder of a value likewise

## Design notes

The comma of a fallback is the separator of assignments. Behind it comes a piece that the store
does not take for an assignment, since no equals sign stands in it.
-/

namespace DocumentTable

/-! ### Characters -/

/-- Whether a character stands in placeholders. -/
def inPlaceholder (c : Char) : Bool :=
  c.isDigit || c.isLower || "#:".toList.contains c

/-- Whether a character stands in placeholders and paths. -/
def inReference (c : Char) : Bool :=
  inPlaceholder c || ".[]".toList.contains c

/-- Whether a character stands in assigned values between their commas. -/
def inValue (c : Char) : Bool :=
  inReference c || " _()+-".toList.contains c

/-- Whether a character stands in assignments. -/
def inAssignment (c : Char) : Bool :=
  inValue c || ",=".toList.contains c

/-- A number is written with digits, which are characters of placeholders. -/
theorem all_inPlaceholder_toString (n : Nat) : (toString n).toList.all inPlaceholder := by
  have digits : (toString n).toList = Nat.toDigits 10 n := Nat.toList_repr
  rw [digits, List.all_eq_true]
  intro c mem
  have digit := List.all_eq_true.1 (all_isDigit_toDigits n) c mem
  rw [inPlaceholder, digit, Bool.true_or, Bool.true_or]

/-- The placeholder of a name consists of characters of placeholders, its mark included. -/
theorem NamePlaceholder.all_inPlaceholder_text (p : NamePlaceholder) :
    p.text.toList.all inPlaceholder := by
  rw [text, String.toList_append, List.all_append, all_inPlaceholder_toString]
  rfl

theorem ValuePlaceholder.all_inPlaceholder_text (v : ValuePlaceholder) :
    v.text.toList.all inPlaceholder := by
  rw [text, String.toList_append, List.all_append, all_inPlaceholder_toString]
  rfl

/-- What all characters are, they are in a wider sense. This is how the classes of characters are
put on top of each other. -/
theorem all_or {p : Char → Bool} {text : List Char} (all : text.all p) (q : Char → Bool) :
    text.all fun c => p c || q c := by
  rw [List.all_eq_true] at all ⊢
  intro c mem
  rw [all c mem, Bool.true_or]

/-- A step is written with the characters of references: those of placeholders, dots and brackets.
-/
theorem Step.all_inReference_text (first : Bool) (step : Step NamePlaceholder) :
    (step.text NamePlaceholder.text first).toList.all inReference := by
  cases step with
  | name p =>
      cases first with
      | true => exact all_or p.all_inPlaceholder_text _
      | false =>
          show ("." ++ p.text).toList.all inReference
          have all : p.text.toList.all inReference := all_or p.all_inPlaceholder_text _
          rw [String.toList_append, List.all_append, all]
          rfl
  | index i =>
      show ("[" ++ toString i.toNat ++ "]").toList.all inReference
      have all : (toString i.toNat).toList.all inReference :=
        all_or (all_inPlaceholder_toString _) _
      rw [String.toList_append, String.toList_append, List.all_append, List.all_append, all]
      rfl

theorem all_inReference_stepsText (first : Bool) (path : PlacedPath) :
    (stepsText NamePlaceholder.text first path).toList.all inReference := by
  induction path generalizing first with
  | nil => rfl
  | cons step rest ih =>
      rw [stepsText, String.toList_append, List.all_append, step.all_inReference_text, ih]
      rfl

/-- A path is written with the characters of references, and therefore without blanks and commas. -/
theorem PlacedPath.all_inReference_text (path : PlacedPath) : path.text.toList.all inReference :=
  all_inReference_stepsText true path

/-- A character outside of a class does not occur in a text of the class. Where clauses are
separated follows from this. -/
theorem not_mem_of_all {p : Char → Bool} {text : List Char} {c : Char} (all : text.all p)
    (other : p c = false) : c ∉ text := by
  intro mem
  have holds := List.all_eq_true.1 all c mem
  rw [other] at holds
  cases holds

theorem PlacedPath.all_inValue_text (path : PlacedPath) : path.text.toList.all inValue :=
  all_or path.all_inReference_text _

theorem ValuePlaceholder.all_inValue_text (v : ValuePlaceholder) : v.text.toList.all inValue :=
  all_or (all_or v.all_inPlaceholder_text _) _

/-! ### Assigned values in pieces -/

namespace Operand

/-- The text of an operand before its comma. -/
def opening : Operand NamePlaceholder ValuePlaceholder → String
  | path p => PlacedPath.text p
  | fallback p _ => "if_not_exists(" ++ PlacedPath.text p
  | value v => v.text

/-- The text of an operand behind its comma. -/
def closing? : Operand NamePlaceholder ValuePlaceholder → Option String
  | path _ => none
  | fallback _ v => some (v.text ++ ")")
  | value _ => none

variable (o : Operand NamePlaceholder ValuePlaceholder)

/-- What an operand begins with, before any comma of its own, has the characters of values only. -/
theorem all_inValue_opening : o.opening.toList.all inValue := by
  cases o with
  | path p => exact PlacedPath.all_inValue_text p
  | fallback p v =>
      have callee : "if_not_exists(".toList.all inValue := by decide
      rw [opening, String.toList_append, List.all_append, callee, PlacedPath.all_inValue_text p,
        Bool.and_true]
  | value v => exact v.all_inValue_text

/-- What an operand ends with behind its comma has the characters of values only. -/
theorem all_inValue_closing {closing : String} (closes : o.closing? = some closing) :
    closing.toList.all inValue := by
  cases o with
  | path p => cases closes
  | fallback p v =>
      cases closes
      rw [String.toList_append, List.all_append, v.all_inValue_text]
      rfl
  | value v => cases closes

/-- The text of an operand is its first piece alone, or two pieces with a comma between them if it
is a fallback. -/
theorem text_eq : o.text = match o.closing? with
    | some closing => o.opening ++ ", " ++ closing
    | none => o.opening := by
  cases o with
  | path p => rfl
  | fallback p v => exact String.append_assoc
  | value v => rfl

end Operand

namespace AssignedValue

/-- The text of an assigned value before its first comma. -/
def opening : AssignedValue NamePlaceholder ValuePlaceholder → String
  | operand o => o.opening
  | arithmetic left op right =>
    match left.closing? with
    | some _ => left.opening
    | none => left.opening ++ " " ++ op.text ++ " " ++ right.opening

/-- The pieces of the text of an assigned value behind its commas. -/
def others : AssignedValue NamePlaceholder ValuePlaceholder → List String
  | operand o => o.closing?.toList
  | arithmetic left op right =>
    match left.closing? with
    | some closing => (closing ++ " " ++ op.text ++ " " ++ right.opening) :: right.closing?.toList
    | none => right.closing?.toList

variable (value : AssignedValue NamePlaceholder ValuePlaceholder)

/-- The text of an assigned value is that of its pieces with commas between them. A store that
splits at commas cuts there. -/
theorem text_eq : value.text = String.intercalate ", " (value.opening :: value.others) := by
  cases value with
  | operand o =>
      rw [text, opening, others, o.text_eq]
      cases o.closing? with
      | none => rw [Option.toList_none, String.intercalate_singleton]
      | some closing =>
          rw [Option.toList_some, String.intercalate_cons_cons, String.intercalate_singleton]
  | arithmetic left op right =>
      rw [text, opening, others, left.text_eq, right.text_eq]
      cases left.closing? <;> cases right.closing? <;>
        simp only [Option.toList_none, Option.toList_some, String.intercalate_cons_cons,
          String.intercalate_singleton, String.append_assoc]

/-- What an assigned value begins with has the characters of values only, so that it has no comma.
-/
theorem all_inValue_opening : value.opening.toList.all inValue := by
  cases value with
  | operand o => exact o.all_inValue_opening
  | arithmetic left op right =>
      rw [opening]
      split
      · exact left.all_inValue_opening
      · simp only [String.toList_append, List.all_append, left.all_inValue_opening,
          right.all_inValue_opening]
        cases op <;> rfl

/-- The further pieces of an assigned value have the characters of values only, so that none has a
comma. -/
theorem all_inValue_others {piece : String} (mem : piece ∈ value.others) :
    piece.toList.all inValue := by
  cases value with
  | operand o => exact o.all_inValue_closing (Option.mem_toList.1 mem)
  | arithmetic left op right =>
      rw [others] at mem
      split at mem
      · next closing closes =>
          rcases List.mem_cons.1 mem with rfl | mem
          · simp only [String.toList_append, List.all_append, left.all_inValue_closing closes,
              right.all_inValue_opening]
            cases op <;> rfl
          · exact right.all_inValue_closing (Option.mem_toList.1 mem)
      · exact right.all_inValue_closing (Option.mem_toList.1 mem)

end AssignedValue

/-! ### Lists of pieces -/

/-- A text of texts, each of some pieces, is the text of all pieces. Each must have a piece, or a
separator would go missing. -/
theorem intercalate_flatMap {α : Type} (s : String) {pieces : α → List String}
    (nonempty : ∀ a, pieces a ≠ []) (as : List α) :
    String.intercalate s (as.flatMap pieces) =
      String.intercalate s (as.map fun a => String.intercalate s (pieces a)) := by
  induction as with
  | nil => rfl
  | cons a as ih =>
      rw [List.flatMap_cons, List.map_cons]
      by_cases last : as = []
      · rw [last, List.flatMap_nil, List.append_nil, List.map_nil, String.intercalate_singleton]
      · have more : as.flatMap pieces ≠ [] := by
          obtain ⟨b, rest, rfl⟩ := List.exists_cons_of_ne_nil last
          exact List.append_ne_nil_of_left_ne_nil (nonempty b) _
        rw [String.intercalate_append_of_ne_nil (nonempty a) more, ih,
          String.intercalate_cons_of_ne_nil (mt List.map_eq_nil_iff.1 last)]

/-- The characters of a text of pieces, unfolded by its first piece. -/
theorem toList_intercalate_cons (s first : String) (rest : List String) :
    (String.intercalate s (first :: rest)).toList =
      first.toList ++ (rest.map String.toList).flatMap (s.toList ++ ·) := by
  induction rest generalizing first with
  | nil => rw [String.intercalate_singleton, List.map_nil, List.flatMap_nil, List.append_nil]
  | cons second rest ih =>
      rw [String.intercalate_cons_cons, String.toList_append, String.toList_append, ih,
        List.map_cons, List.flatMap_cons]
      simp only [List.append_assoc]

/-- A text of pieces has the characters of a class when the pieces have them and what stands between
them has. -/
theorem all_intercalate {p : Char → Bool} {s : String} {l : List String} (between : s.toList.all p)
    (each : ∀ text ∈ l, text.toList.all p) : (String.intercalate s l).toList.all p := by
  induction l with
  | nil => rfl
  | cons first rest ih =>
      rw [List.forall_mem_cons] at each
      by_cases last : rest = []
      · rw [last, String.intercalate_singleton]
        exact each.1
      · rw [String.intercalate_cons_of_ne_nil last, String.toList_append, String.toList_append,
          List.all_append, List.all_append, each.1, between, ih each.2]
        rfl

/-- Pieces that lack a character of what stands between them are found again. One such character is
enough, and for clauses it is the comma. -/
theorem splitAll_intercalate {s : String} {c : Char} (mem : c ∈ s.toList) {pieces : List String}
    (nonempty : pieces ≠ []) (absent : ∀ piece ∈ pieces, c ∉ piece.toList) :
    splitAll s.toList (String.intercalate s pieces).toList = pieces.map String.toList := by
  obtain ⟨first, rest, rfl⟩ := List.exists_cons_of_ne_nil nonempty
  rw [List.forall_mem_cons] at absent
  rw [toList_intercalate_cons]
  exact splitAll_pieces mem absent.1 (List.forall_mem_map.2 absent.2)

/-! ### Clauses -/

namespace Assignment

/-- The pieces of the text of an assignment between its commas. -/
def pieces (a : Assignment NamePlaceholder ValuePlaceholder) : List String :=
  (PlacedPath.text a.target ++ " = " ++ a.value.opening) :: a.value.others

variable (a : Assignment NamePlaceholder ValuePlaceholder)

/-- The text of an assignment is that of its pieces with commas between them, of which a fallback
makes more than one. -/
theorem text_eq : a.text = String.intercalate ", " a.pieces := by
  rw [text, a.value.text_eq, pieces, String.intercalate_cons_append]

/-- No piece of an assignment has a comma, so that the pieces are what a split at commas finds. -/
theorem comma_not_mem_pieces {piece : String} (mem : piece ∈ a.pieces) : ',' ∉ piece.toList := by
  rcases List.mem_cons.1 mem with rfl | mem
  · have target := not_mem_of_all (c := ',') (PlacedPath.all_inReference_text a.target) rfl
    have opening := not_mem_of_all (c := ',') a.value.all_inValue_opening rfl
    simp only [String.toList_append, List.mem_append]
    rintro ((mem | mem) | mem)
    · exact target mem
    · exact absurd mem (by decide)
    · exact opening mem
  · exact not_mem_of_all (a.value.all_inValue_others mem) rfl

/-- An assignment is written without capitals, in which the keywords are, so that no clause seems to
begin inside of it. -/
theorem all_inAssignment_text : a.text.toList.all inAssignment := by
  rw [a.text_eq]
  refine all_intercalate rfl fun piece mem => ?_
  rcases List.mem_cons.1 mem with rfl | mem
  · have target : (PlacedPath.text a.target).toList.all inAssignment :=
      all_or (PlacedPath.all_inValue_text a.target) _
    have opening : a.value.opening.toList.all inAssignment := all_or a.value.all_inValue_opening _
    rw [String.toList_append, String.toList_append, List.all_append, List.all_append, target,
      opening]
    rfl
  · exact all_or (a.value.all_inValue_others mem) _

/-- Of the pieces of an assignment the first one is read. The others have no sign of equality and
are skipped. -/
theorem readAssignment_pieces :
    (a.pieces.map String.toList).filterMap Store.readAssignment =
      [(PlacedPath.text a.target, a.value.opening)] := by
  have first : Store.readAssignment
      (PlacedPath.text a.target ++ " = " ++ a.value.opening).toList =
        some (PlacedPath.text a.target, a.value.opening) := by
    have space := not_mem_of_all (PlacedPath.all_inReference_text a.target) (c := ' ') rfl
    unfold Store.readAssignment
    rw [String.toList_append, String.toList_append, List.append_assoc,
      splitOnce?_append (by decide : ' ' ∈ " = ".toList) space, Option.map_some]
    dsimp only
    rw [String.ofList_toList, String.ofList_toList]
  have none : ∀ piece ∈ a.value.others, Store.readAssignment piece.toList = none := by
    intro piece mem
    have equals := not_mem_of_all (a.value.all_inValue_others mem) (c := '=') rfl
    unfold Store.readAssignment
    rw [splitOnce?_eq_none (by decide : '=' ∈ " = ".toList) equals, Option.map_none]
  rw [pieces, List.map_cons, List.filterMap_cons_some first]
  refine congrArg _ (List.filterMap_eq_nil_iff.2 ?_)
  exact List.forall_mem_map.2 none

end Assignment

/-- An assignment has at least one piece, that of its target. -/
theorem Assignment.pieces_ne_nil (a : Assignment NamePlaceholder ValuePlaceholder) :
    a.pieces ≠ [] :=
  List.cons_ne_nil _ _

namespace Store

/-- The assignments that are read in a clause of assignments are those that were written there, each
with its target and the beginning of its value. -/
theorem readAssignments_intercalate (as : List (Assignment NamePlaceholder ValuePlaceholder)) :
    (splitAll ", ".toList
        (String.intercalate ", " (as.map Assignment.text)).toList).filterMap readAssignment =
      as.map fun a => (PlacedPath.text a.target, a.value.opening) := by
  by_cases empty : as = []
  · rw [empty]
    rfl
  · have nonempty : as.flatMap Assignment.pieces ≠ [] := by
      obtain ⟨a, rest, rfl⟩ := List.exists_cons_of_ne_nil empty
      exact List.append_ne_nil_of_left_ne_nil a.pieces_ne_nil _
    have absent : ∀ piece ∈ as.flatMap Assignment.pieces, ',' ∉ piece.toList := by
      intro piece mem
      obtain ⟨a, -, mem⟩ := List.mem_flatMap.1 mem
      exact a.comma_not_mem_pieces mem
    rw [funext Assignment.text_eq, ← intercalate_flatMap ", " Assignment.pieces_ne_nil,
      splitAll_intercalate (by decide : ',' ∈ ", ".toList) nonempty absent, List.map_flatMap,
      List.filterMap_flatMap, funext Assignment.readAssignment_pieces]
    exact List.map_eq_flatMap.symm

/-- The targets that are read in a clause of removals are those that were written there. -/
theorem splitAll_removes {paths : List PlacedPath} (nonempty : paths ≠ []) :
    (splitAll ", ".toList
        (String.intercalate ", " (paths.map PlacedPath.text)).toList).map String.ofList =
      paths.map PlacedPath.text := by
  rw [splitAll_intercalate (by decide : ',' ∈ ", ".toList) (mt List.map_eq_nil_iff.1 nonempty)]
  · rw [List.map_map]
    exact List.map_id'' (fun _ => String.ofList_toList) _
  · rw [List.forall_mem_map]
    exact fun path _ => not_mem_of_all path.all_inReference_text rfl

/-! ### Texts of updates -/

variable {sets removes : List Char}

/-- With both clauses the keyword of the second one is found, as the first one does not have its
letter. -/
theorem splitClauses_both (absent : 'R' ∉ sets) (removes : List Char) :
    splitClauses (sets ++ (" REMOVE ".toList ++ removes)) = (sets, some removes) := by
  unfold splitClauses
  rw [splitOnce?_append (by decide : 'R' ∈ " REMOVE ".toList) absent]

/-- Without removals all of the text is the clause of assignments. -/
theorem splitClauses_sets (absent : 'R' ∉ sets) : splitClauses sets = (sets, none) := by
  unfold splitClauses
  rw [splitOnce?_eq_none (by decide : 'R' ∈ " REMOVE ".toList) absent,
    stripLeading?_eq_none (by decide : 'R' ∈ "REMOVE ".toList) absent]

theorem splitClauses_removes (absent : 'R' ∉ removes) :
    splitClauses ("REMOVE ".toList ++ removes) = ([], some removes) := by
  -- the keyword at the start has no space before it, and behind it there is no other one
  have alone : splitOnce? " REMOVE ".toList ("REMOVE ".toList ++ removes) = none := by
    have behind : 'R' ∉ "EMOVE ".toList ++ removes := by
      rw [List.mem_append, not_or]
      exact ⟨by decide, absent⟩
    show splitOnce? " REMOVE ".toList ('R' :: ("EMOVE ".toList ++ removes)) = none
    rw [splitOnce?, if_neg (by simp),
      splitOnce?_eq_none (by decide : 'R' ∈ " REMOVE ".toList) behind, Option.map_none]
  unfold splitClauses
  rw [alone, stripLeading?_append]

/-- What a store reads in the text of clauses: all targets, and of each assigned value what stands
before its first comma. -/
theorem UpdateText.ofText_text (u : PlacedUpdate) :
    UpdateText.ofText u.text =
      { sets := u.sets.map fun a => (PlacedPath.text a.target, a.value.opening)
        removes := u.removes.map PlacedPath.text } := by
  obtain ⟨as, ps⟩ := u
  have reads := readAssignments_intercalate as
  have setsAll : (String.intercalate ", " (as.map Assignment.text)).toList.all inAssignment :=
    all_intercalate rfl (List.forall_mem_map.2 fun a _ => a.all_inAssignment_text)
  have removesAll : (String.intercalate ", " (ps.map PlacedPath.text)).toList.all inAssignment := by
    exact all_intercalate rfl (List.forall_mem_map.2 fun path _ => all_or path.all_inValue_text _)
  -- neither keyword stands inside a clause
  have dropped := dropLeading_append (by decide : 'S' ∈ "SET ".toList)
    (not_mem_of_all setsAll rfl)
  have setsLack : 'R' ∉ "SET ".toList ++
      (String.intercalate ", " (as.map Assignment.text)).toList := by
    rw [List.mem_append, not_or]
    exact ⟨by decide, not_mem_of_all setsAll rfl⟩
  have removesLack := not_mem_of_all (c := 'R') removesAll rfl
  by_cases noSets : as = [] <;> by_cases noRemoves : ps = []
  · rw [noSets, noRemoves]
    rfl
  · have text : (UpdateClauses.text ⟨as, ps⟩).toList = "REMOVE ".toList ++
        (String.intercalate ", " (ps.map PlacedPath.text)).toList := by
      simp only [UpdateClauses.text, List.isEmpty_iff, noSets, noRemoves, if_true, if_false,
        List.nil_append, String.intercalate_singleton, String.toList_append]
    unfold ofText
    rw [text, splitClauses_removes removesLack]
    dsimp only
    rw [splitAll_removes noRemoves, noSets]
    rfl
  · have text : (UpdateClauses.text ⟨as, ps⟩).toList = "SET ".toList ++
        (String.intercalate ", " (as.map Assignment.text)).toList := by
      simp only [UpdateClauses.text, List.isEmpty_iff, noSets, noRemoves, if_true, if_false,
        List.append_nil, String.intercalate_singleton, String.toList_append]
    unfold ofText
    rw [text, splitClauses_sets setsLack]
    dsimp only
    rw [dropped, reads, noRemoves]
    rfl
  · have text : (UpdateClauses.text ⟨as, ps⟩).toList = "SET ".toList ++
        (String.intercalate ", " (as.map Assignment.text)).toList ++
        (" REMOVE ".toList ++ (String.intercalate ", " (ps.map PlacedPath.text)).toList) := by
      simp only [UpdateClauses.text, List.isEmpty_iff, noSets, noRemoves, if_false,
        List.singleton_append, String.intercalate_cons_cons, String.intercalate_singleton,
        String.toList_append, List.append_assoc]
      rfl
    unfold ofText
    rw [text, splitClauses_both setsLack]
    dsimp only
    rw [dropped, reads, splitAll_removes noRemoves]

end Store

/-! ### What stands alone -/

/-- Behind its first step the text of a path has a character that no placeholder has. -/
theorem exists_not_inPlaceholder (step : Step NamePlaceholder) (rest : PlacedPath) :
    ∃ c ∈ (stepsText NamePlaceholder.text false (step :: rest)).toList,
      inPlaceholder c = false := by
  rw [stepsText, String.toList_append]
  cases step with
  | name p => exact ⟨'.', List.mem_append_left _ (by simp [Step.text]), rfl⟩
  | index i => exact ⟨'[', List.mem_append_left _ (by simp [Step.text]), rfl⟩

/-- A path has the text of the placeholder of a name when it is that name alone. A store looks up
its targets as such placeholders, and so does nothing with the others. -/
theorem PlacedPath.text_eq_text_iff {path : PlacedPath} {p : NamePlaceholder} :
    path.text = p.text ↔ path = [.name p] := by
  refine ⟨fun same => ?_, fun same => by rw [same]; exact String.append_empty⟩
  cases path with
  | nil =>
      have chars := congrArg String.toList same
      simp [PlacedPath.text, stepsText, NamePlaceholder.text] at chars
  | cons step rest =>
      cases step with
      | index i =>
          have chars := congrArg String.toList same
          simp [PlacedPath.text, stepsText, Step.text, NamePlaceholder.text] at chars
      | name q =>
          cases rest with
          | nil =>
              rw [PlacedPath.text, stepsText, stepsText, String.append_empty] at same
              rw [NamePlaceholder.text_injective same]
          | cons step rest =>
              obtain ⟨c, mem, other⟩ := exists_not_inPlaceholder step rest
              refine absurd ?_ (not_mem_of_all p.all_inPlaceholder_text other)
              rw [← same, PlacedPath.text, stepsText, String.toList_append]
              exact List.mem_append_right _ mem

/-- The text of a path does not start like the placeholder of a value, as their marks are different.
-/
theorem PlacedPath.text_ne_text (path : PlacedPath) (v : ValuePlaceholder) :
    path.text ≠ v.text := by
  intro same
  have chars := congrArg String.toList same
  cases path with
  | nil => simp [PlacedPath.text, stepsText, ValuePlaceholder.text] at chars
  | cons step rest =>
      cases step <;>
        simp [PlacedPath.text, stepsText, Step.text, NamePlaceholder.text, ValuePlaceholder.text]
          at chars

/-- What stands before a comma is the placeholder of a value when the whole operand is. A store
assigns such values and skips all others. -/
theorem Operand.opening_eq_text_iff {o : Operand NamePlaceholder ValuePlaceholder}
    {v : ValuePlaceholder} : o.opening = v.text ↔ o = .value v := by
  refine ⟨fun same => ?_, fun same => by rw [same]; rfl⟩
  cases o with
  | path p => exact absurd same (PlacedPath.text_ne_text p v)
  | fallback p w =>
      have chars := (congrArg String.toList same).trans v.toList_text
      rw [opening, String.toList_append] at chars
      cases chars
  | value w => rw [ValuePlaceholder.text_injective same]

/-- The same for what is assigned: sums, differences and fallbacks do not begin with a value alone.
-/
theorem AssignedValue.opening_eq_text_iff {value : AssignedValue NamePlaceholder ValuePlaceholder}
    {v : ValuePlaceholder} : value.opening = v.text ↔ value = .operand (.value v) := by
  cases value with
  | operand o => rw [opening, Operand.opening_eq_text_iff, operand.injEq]
  | arithmetic left op right =>
      refine iff_of_false (fun same => ?_) nofun
      rw [opening] at same
      split at same
      · next closes =>
          rw [Operand.opening_eq_text_iff.1 same] at closes
          cases closes
      · -- around the operator there are spaces
          refine absurd ?_ (not_mem_of_all v.all_inPlaceholder_text (c := ' ') rfl)
          rw [← same]
          simp

end DocumentTable
