import DocumentTable.Proofs.Occurrence
import DocumentTable.Proofs.Registry

/-!
# Placing expressions

An expression over names and values becomes one over placeholders when each name and each value is
given its placeholder, from left to right. What the result stands for is an expression over the
entries of the registry: on one side of its entries are the placeholders, on the other side is what
they were given out for.

## Main definitions

* `Clause.place`, `Change.place`, `KeyClause.place`: an expression with placeholders
* `NameEntry`, `ValueEntry`: a placeholder and what it was given out for

## Main results

* `Clause.exists_entries`, `Change.exists_entries`, `KeyClause.exists_entries`: the placeholders of
  an expression were given out for its names and its values, and no others were given out
-/

namespace DocumentTable

open Registry

/-- A placeholder of a name, and the name. -/
abbrev NameEntry := NamePlaceholder × String

/-- A placeholder of a value, and the value. -/
abbrev ValueEntry := ValuePlaceholder × Json

/-! ### Paths and lists of values -/

/-- The placeholders of a path were given out for its names. Both sides of the entries are kept, so
that the path and its text come from one list. -/
theorem exists_entries_placePath (path : Path) (r : Registry) :
    ∃ entries : List (Step NameEntry), entries.map (Step.map Prod.snd) = path ∧
      ((placePath path).run r).1 = entries.map (Step.map Prod.fst) ∧
      Placed r ((placePath path).run r).2 (pathNames entries) [] := by
  induction path generalizing r with
  | nil => exact ⟨[], rfl, rfl, .refl r⟩
  | cons step rest ih =>
      cases step with
      | name n =>
          obtain ⟨entries, draft, out, placed⟩ := ih ((placeName n).run r).2
          refine ⟨.name (((placeName n).run r).1, n) :: entries, ?_, ?_, ?_⟩
          · exact congrArg (Step.name n :: ·) draft
          · exact congrArg (Step.name ((placeName n).run r).1 :: ·) out
          · -- the name may have had its placeholder before
            exact (placed_placeName n r).trans placed
      | index i =>
          obtain ⟨entries, draft, out, placed⟩ := ih r
          refine ⟨.index i :: entries, ?_, ?_, placed⟩
          · exact congrArg (Step.index i :: ·) draft
          · exact congrArg (Step.index i :: ·) out

theorem exists_entries_placePaths (paths : List Path) (r : Registry) :
    ∃ entries : List (List (Step NameEntry)),
      entries.map (List.map (Step.map Prod.snd)) = paths ∧
      ((placePaths paths).run r).1 = entries.map (List.map (Step.map Prod.fst)) ∧
      Placed r ((placePaths paths).run r).2 (entries.flatMap pathNames) [] := by
  induction paths generalizing r with
  | nil => exact ⟨[], rfl, rfl, .refl r⟩
  | cons path rest ih =>
      obtain ⟨first, draft, out, placed⟩ := exists_entries_placePath path r
      obtain ⟨entries, draft', out', placed'⟩ := ih ((placePath path).run r).2
      refine ⟨first :: entries, ?_, ?_, placed.trans placed'⟩
      · rw [List.map_cons, draft, draft']
      · rw [List.map_cons, ← out, ← out']
        rfl

theorem exists_entry_placeValue (v : Json) (r : Registry) :
    ∃ entry : ValueEntry, entry.2 = v ∧ ((placeValue v).run r).1 = entry.1 ∧
      Placed r ((placeValue v).run r).2 [] [entry] :=
  ⟨(((placeValue v).run r).1, v), rfl, rfl, placed_placeValue v r⟩

/-- The placeholders of candidates were given out for them, each on its own. -/
theorem exists_entries_placeValues (values : List Json) (r : Registry) :
    ∃ entries : List ValueEntry, entries.map Prod.snd = values ∧
      ((placeValues values).run r).1 = entries.map Prod.fst ∧
      Placed r ((placeValues values).run r).2 [] entries := by
  induction values generalizing r with
  | nil => exact ⟨[], rfl, rfl, .refl r⟩
  | cons v rest ih =>
      obtain ⟨first, draft, out, placed⟩ := exists_entry_placeValue v r
      obtain ⟨entries, draft', out', placed'⟩ := ih ((placeValue v).run r).2
      exact ⟨first :: entries, congrArg₂ List.cons draft draft', congrArg₂ List.cons out out',
        placed.trans placed'⟩

theorem exists_entries_placeRest (comparisons : List (CompareOp × Json)) (r : Registry) :
    ∃ entries : List (CompareOp × ValueEntry),
      entries.map (Prod.map id Prod.snd) = comparisons ∧
      ((Comparator.place.placeRest comparisons).run r).1 = entries.map (Prod.map id Prod.fst) ∧
      Placed r ((Comparator.place.placeRest comparisons).run r).2 [] (entries.map Prod.snd) := by
  induction comparisons generalizing r with
  | nil => exact ⟨[], rfl, rfl, .refl r⟩
  | cons comparison rest ih =>
      obtain ⟨op, v⟩ := comparison
      obtain ⟨first, draft, out, placed⟩ := exists_entry_placeValue v r
      obtain ⟨entries, draft', out', placed'⟩ := ih ((placeValue v).run r).2
      refine ⟨(op, first) :: entries, ?_, ?_, placed.trans placed'⟩
      · exact congrArg₂ (fun value rest => (op, value) :: rest) draft draft'
      · exact congrArg₂ (fun value rest => (op, value) :: rest) out out'

/-! ### Conditions -/

namespace Subject

/-- A subject with placeholders. -/
def place : Subject String → StateM Registry (Subject NamePlaceholder)
  | itself path => do return .itself (← placePath path)
  | size path => do return .size (← placePath path)

theorem exists_entries (subject : Subject String) (r : Registry) :
    ∃ entries : Subject NameEntry, entries.map Prod.snd = subject ∧
      (subject.place.run r).1 = entries.map Prod.fst ∧
      Placed r (subject.place.run r).2 (pathNames entries.path) [] := by
  cases subject with
  | itself path =>
      obtain ⟨entries, draft, out, placed⟩ := exists_entries_placePath path r
      exact ⟨itself entries, congrArg itself draft, congrArg itself out, placed⟩
  | size path =>
      obtain ⟨entries, draft, out, placed⟩ := exists_entries_placePath path r
      exact ⟨size entries, congrArg size draft, congrArg size out, placed⟩

end Subject

namespace Clause

/-- A clause with placeholders. -/
def place : Clause String Json → StateM Registry PlacedClause
  | compare subject first rest => do
    let subject ← subject.place
    let value ← placeValue first.2
    return .compare subject (first.1, value) (← Comparator.place.placeRest rest)
  | between path lower upper => do
    let path ← placePath path
    let lower ← placeValue lower
    return .between path lower (← placeValue upper)
  | oneOf path first rest => do
    let path ← placePath path
    let first ← placeValue first
    return .oneOf path first (← placeValues rest)
  | call callee path none => do return .call callee (← placePath path) none
  | call callee path (some argument) => do
    let path ← placePath path
    return .call callee path (some (← placeValue argument))
  | negate clause => do return .negate (← clause.place)
  | join op left right => do
    let left ← left.place
    return .join op left (← right.place)

/-- Clauses with placeholders, in order. -/
def placeAll : List (Clause String Json) → StateM Registry (List PlacedClause)
  | [] => return []
  | clause :: rest => do
    let first ← clause.place
    return first :: (← placeAll rest)

/-- Clauses may be given their placeholders before they are joined, since joining asks for none. -/
theorem place_joinAll (op : LogicalOp) (first : Clause String Json)
    (rest : List (Clause String Json)) :
    (joinAll op first rest).place = (do
      let first ← first.place
      return joinAll op first (← placeAll rest)) := by
  induction rest generalizing first with
  | nil => rfl
  | cons clause rest ih => exact ih (join op first clause)

/-- The placeholders of a clause were given out for its names and its values. The induction is on
the clause; what is placed for one part is still there after the next. -/
theorem exists_entries (clause : Clause String Json) (r : Registry) :
    ∃ entries : Clause NameEntry ValueEntry, entries.map Prod.snd Prod.snd = clause ∧
      (clause.place.run r).1 = entries.map Prod.fst Prod.fst ∧
      Placed r (clause.place.run r).2 entries.names entries.literals := by
  induction clause generalizing r with
  | compare subject first rest =>
      obtain ⟨op, v⟩ := first
      obtain ⟨subject', rfl, out, placed⟩ := subject.exists_entries r
      obtain ⟨first', rfl, out', placed'⟩ := exists_entry_placeValue v (Subject.place _ |>.run r).2
      obtain ⟨rest', rfl, out'', placed''⟩ := exists_entries_placeRest rest _
      -- the subject is placed once, however many comparisons there are
      refine ⟨compare subject' (op, first') rest', rfl, ?_, ?_⟩
      · rw [map, ← out, ← out'']
        exact congrArg (fun value => compare _ (op, value) _) out'
      · exact placed.trans_values (placed'.trans placed'')
  | between path lower upper =>
      obtain ⟨path', rfl, out, placed⟩ := exists_entries_placePath path r
      obtain ⟨lower', rfl, out', placed'⟩ := exists_entry_placeValue lower _
      obtain ⟨upper', rfl, out'', placed''⟩ := exists_entry_placeValue upper _
      refine ⟨between path' lower' upper', rfl, ?_, ?_⟩
      · rw [map, ← out, ← out', ← out'']
        rfl
      · exact placed.trans_values (placed'.trans placed'')
  | oneOf path first rest =>
      obtain ⟨path', rfl, out, placed⟩ := exists_entries_placePath path r
      obtain ⟨first', rfl, out', placed'⟩ := exists_entry_placeValue first _
      obtain ⟨rest', rfl, out'', placed''⟩ := exists_entries_placeValues rest _
      refine ⟨oneOf path' first' rest', rfl, ?_, ?_⟩
      · rw [map, ← out, ← out', ← out'']
        rfl
      · exact placed.trans_values (placed'.trans placed'')
  | call callee path argument =>
      obtain ⟨path', rfl, out, placed⟩ := exists_entries_placePath path r
      cases argument with
      | none => exact ⟨call callee path' none, rfl, congrArg (call callee · none) out, placed⟩
      | some v =>
          obtain ⟨v', rfl, out', placed'⟩ := exists_entry_placeValue v _
          refine ⟨call callee path' (some v'), rfl, ?_, ?_⟩
          · exact congrArg₂ (fun path v => call callee path (some v)) out out'
          · exact placed.trans_values placed'
  | negate clause ih =>
      obtain ⟨entries, draft, out, placed⟩ := ih r
      exact ⟨negate entries, congrArg negate draft, congrArg negate out, placed⟩
  | join op left right ihl ihr =>
      obtain ⟨left', draft, out, placed⟩ := ihl r
      obtain ⟨right', draft', out', placed'⟩ := ihr (left.place.run r).2
      exact ⟨join op left' right', congrArg₂ (join op) draft draft',
        congrArg₂ (join op) out out', placed.trans placed'⟩

end Clause

/-! ### Updates -/

namespace Operand

/-- An operand with placeholders. -/
def place : Operand String Json → StateM Registry (Operand NamePlaceholder ValuePlaceholder)
  | path p => do return .path (← placePath p)
  | fallback p v => do
    let p ← placePath p
    return .fallback p (← placeValue v)
  | value v => do return .value (← placeValue v)

theorem exists_entries (operand : Operand String Json) (r : Registry) :
    ∃ entries : Operand NameEntry ValueEntry, entries.map Prod.snd Prod.snd = operand ∧
      (operand.place.run r).1 = entries.map Prod.fst Prod.fst ∧
      Placed r (operand.place.run r).2 entries.names entries.literals := by
  cases operand with
  | path p =>
      obtain ⟨p', rfl, out, placed⟩ := exists_entries_placePath p r
      exact ⟨path p', rfl, congrArg path out, placed⟩
  | fallback p v =>
      obtain ⟨p', rfl, out, placed⟩ := exists_entries_placePath p r
      obtain ⟨v', rfl, out', placed'⟩ := exists_entry_placeValue v _
      exact ⟨fallback p' v', rfl, congrArg₂ fallback out out', placed.trans_values placed'⟩
  | value v =>
      obtain ⟨v', rfl, out, placed⟩ := exists_entry_placeValue v r
      exact ⟨value v', rfl, congrArg value out, placed⟩

end Operand

namespace AssignedValue

/-- An assigned value with placeholders. -/
def place :
    AssignedValue String Json → StateM Registry (AssignedValue NamePlaceholder ValuePlaceholder)
  | operand o => do return .operand (← o.place)
  | arithmetic left op right => do
    let left ← left.place
    return .arithmetic left op (← right.place)

theorem exists_entries (value : AssignedValue String Json) (r : Registry) :
    ∃ entries : AssignedValue NameEntry ValueEntry, entries.map Prod.snd Prod.snd = value ∧
      (value.place.run r).1 = entries.map Prod.fst Prod.fst ∧
      Placed r (value.place.run r).2 entries.names entries.literals := by
  cases value with
  | operand o =>
      obtain ⟨o', rfl, out, placed⟩ := o.exists_entries r
      exact ⟨operand o', rfl, congrArg operand out, placed⟩
  | arithmetic left op right =>
      obtain ⟨left', rfl, out, placed⟩ := left.exists_entries r
      obtain ⟨right', rfl, out', placed'⟩ := right.exists_entries _
      exact ⟨arithmetic left' op right', rfl,
        congrArg₂ (fun left right => arithmetic left op right) out out', placed.trans placed'⟩

end AssignedValue

namespace Change

/-- A change with placeholders. -/
def place : Change String Json → StateM Registry (Change NamePlaceholder ValuePlaceholder)
  | set a => do
    let target ← placePath a.target
    return .set ⟨target, ← a.value.place⟩
  | remove target => do return .remove (← placePath target)

/-- Changes with placeholders, in order. -/
def placeAll :
    List (Change String Json) → StateM Registry (List (Change NamePlaceholder ValuePlaceholder))
  | [] => return []
  | change :: rest => do
    let first ← change.place
    return first :: (← placeAll rest)

theorem exists_entries (change : Change String Json) (r : Registry) :
    ∃ entries : Change NameEntry ValueEntry, entries.map Prod.snd Prod.snd = change ∧
      (change.place.run r).1 = entries.map Prod.fst Prod.fst ∧
      Placed r (change.place.run r).2 entries.names entries.literals := by
  cases change with
  | set a =>
      obtain ⟨target, value⟩ := a
      obtain ⟨target', rfl, out, placed⟩ := exists_entries_placePath target r
      obtain ⟨value', draft, out', placed'⟩ := value.exists_entries ((placePath _).run r).2
      subst draft
      exact ⟨set ⟨target', value'⟩, rfl,
        congrArg₂ (fun target value => set ⟨target, value⟩) out out', placed.trans placed'⟩
  | remove target =>
      obtain ⟨target', rfl, out, placed⟩ := exists_entries_placePath target r
      exact ⟨remove target', rfl, congrArg remove out, placed⟩

/-- The placeholders of changes were given out for their names and their values, by induction on the
changes. -/
theorem exists_entries_placeAll (changes : List (Change String Json)) (r : Registry) :
    ∃ entries : List (Change NameEntry ValueEntry),
      entries.map (map Prod.snd Prod.snd) = changes ∧
      ((placeAll changes).run r).1 = entries.map (map Prod.fst Prod.fst) ∧
      Placed r ((placeAll changes).run r).2 (entries.flatMap names)
        (entries.flatMap literals) := by
  induction changes generalizing r with
  | nil => exact ⟨[], rfl, rfl, .refl r⟩
  | cons change rest ih =>
      obtain ⟨first, rfl, out, placed⟩ := change.exists_entries r
      obtain ⟨entries, rfl, out', placed'⟩ := ih _
      exact ⟨first :: entries, rfl, congrArg₂ List.cons out out', placed.trans placed'⟩

/-- Changes may be given their placeholders in parts, as they are when a tree is walked over. -/
theorem placeAll_append (first rest : List (Change String Json)) :
    placeAll (first ++ rest) = (do
      let first ← placeAll first
      return first ++ (← placeAll rest)) := by
  induction first with
  | nil => rfl
  | cons change first ih =>
      rw [List.cons_append, placeAll, ih]
      rfl

end Change

/-! ### Key conditions -/

namespace KeyClause

/-- A key condition with placeholders. -/
def place (key : KeyClause String Json) : StateM Registry PlacedKeyClause := do
  let name ← placePath key.partitionKey
  let value ← placeValue key.partition
  match key.sort with
  | none => return ⟨name, value, none⟩
  | some sort => return ⟨name, value, some (← sort.place)⟩

/-- The placeholders of a key condition were given out for its names and its values, the partition
before the sort key. -/
theorem exists_entries (key : KeyClause String Json) (r : Registry) :
    ∃ entries : KeyClause NameEntry ValueEntry, entries.map Prod.snd Prod.snd = key ∧
      (key.place.run r).1 = entries.map Prod.fst Prod.fst ∧
      Placed r (key.place.run r).2 entries.names entries.literals := by
  obtain ⟨partitionKey, partition, sort⟩ := key
  obtain ⟨name, rfl, out, placed⟩ := exists_entries_placePath partitionKey r
  obtain ⟨value, rfl, out', placed'⟩ := exists_entry_placeValue partition _
  have both := placed.trans placed'
  cases sort with
  | none =>
      refine ⟨⟨name, value, none⟩, rfl, ?_, both⟩
      exact congrArg₂ (fun name value => KeyClause.mk name value none) out out'
  | some sort =>
      obtain ⟨sort', draft, out'', placed''⟩ :=
        sort.exists_entries ((placeValue _).run ((placePath _).run r).2).2
      subst draft
      refine ⟨⟨name, value, some sort'⟩, rfl, ?_, ?_⟩
      · rw [map, ← out, ← out', Option.map_some, ← out'']
        rfl
      · have whole := both.trans placed''
        rwa [List.append_nil] at whole

end KeyClause

end DocumentTable
