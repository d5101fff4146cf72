import DocumentTable.Proofs.Meaning
import DocumentTable.Proofs.Partition

/-!
# Reading key conditions

The service reads the key condition of a query by the grammar of condition expressions. It can read
it in one way only, as a comparison of the partition key and, if there is a test of the sort key,
its conjunction with that test.

## Main definitions

* `Clause.IsTest`: a clause without operators
* `KeyClause.formula`: the formula of a key condition
* `KeyCondition.formula`: what a key condition asks for
* `Table.Asks`: a request with a key condition that is read as what a key condition asks for

## Main results

* `KeyClause.derives_iff`: the text of a key condition is read as its formula and as nothing else
* `Table.QueryMade.asks`: the request of a query asks for its partition and its test

## Design notes

There are no parentheses in a key condition. It can be read in one way since each side of its
operator is a test. In the test of a range there is a second operator, behind which only a value
stands.
-/

namespace DocumentTable

open Registry

variable {ν ν' β β' : Type} {p : Precedence} {n : Nat} {f : Formula WrittenName String}

/-! ### Clauses without operators -/

namespace Clause

/-- A clause that is a single test. -/
def IsTest : Clause ν β → Prop
  | compare _ _ rest => rest = []
  | negate _ => False
  | join .. => False
  | _ => True

@[simp] theorem isTest_map (g : ν → ν') (g' : β → β') (clause : Clause ν β) :
    (clause.map g g').IsTest ↔ clause.IsTest := by
  cases clause with
  | compare subject first rest => exact List.map_eq_nil_iff
  | _ => rfl

variable {clause : PlacedClause}

/-- The text of a single test is read as a test, and it is the test that was written. -/
theorem IsTest.exists_testRead (isTest : clause.IsTest) (fits : clause.Fits) :
    ∃ t, clause.written = .test t ∧ TestRead clause.tokens t := by
  cases clause with
  | compare subject first rest =>
      cases isTest
      refine ⟨_, rfl, ?_⟩
      rw [tokens, List.flatMap_nil, List.append_nil]
      exact testRead_comparison fits first
  | between path lower upper => exact ⟨_, rfl, testRead_between fits lower upper⟩
  | oneOf path first rest =>
      exact ⟨_, written_oneOf path first rest, testRead_oneOf fits first rest⟩
  | call callee path argument =>
      exact ⟨_, written_call callee path argument, testRead_call fits.1 fits.2⟩
  | negate _ => cases isTest
  | join _ _ _ => cases isTest

/-- What stands behind an operator in the text of a single test is no formula. -/
theorem IsTest.not_derives_of_split (isTest : clause.IsTest) (fits : clause.Fits)
    {op : LogicalOp} {us vs : List Token}
    (split : us ++ .keyword op.keyword :: vs = clause.tokens) : ¬ Derives p n vs f := by
  have mem : Token.keyword op.keyword ∈ clause.tokens := by simp [← split]
  cases clause with
  | compare subject first rest =>
      cases isTest
      rw [tokens, List.flatMap_nil, List.append_nil] at mem
      exact absurd mem (not_mem_keyword (isKeyword_comparisonTokens fits first) _)
  | between path lower upper => exact not_derives_of_split_between fits split
  | oneOf path first rest => exact absurd mem (not_mem_operator_oneOf fits first rest op)
  | call callee path argument => exact absurd mem (not_mem_operator_call fits.1 callee argument op)
  | negate _ => cases isTest
  | join _ _ _ => cases isTest

/-- The text of a single test is read as the test and as nothing else, wherever it stands. -/
theorem IsTest.derives_iff (isTest : clause.IsTest) (fits : clause.Fits) :
    Derives p n clause.tokens f ↔ f = clause.written := by
  obtain ⟨t, written, read⟩ := isTest.exists_testRead fits
  rw [written]
  constructor
  · intro derived
    exact derived.eq_test read fun _ _ _ split _ _ => isTest.not_derives_of_split fits split
  · rintro rfl
    exact .test read

/-- A single comparison is read as itself and as nothing else. -/
theorem derives_comparison_iff {subject : Subject NamePlaceholder}
    (h : startsWithName subject.path = true) (c : CompareOp × ValuePlaceholder) :
    Derives p n (comparisonTokens subject c) f ↔ f = writtenComparison subject c := by
  have isTest : IsTest (.compare subject c []) := rfl
  have alone := isTest.derives_iff (p := p) (n := n) (f := f) h
  rwa [tokens, List.flatMap_nil, List.append_nil] at alone

/-- A comparison and a single test with a conjunction between them are read as it and as nothing
else. The range test has a conjunction of its own, which could otherwise be taken for this one. -/
theorem IsTest.derives_and_iff {subject : Subject NamePlaceholder}
    (h : startsWithName subject.path = true) (c : CompareOp × ValuePlaceholder)
    (isTest : clause.IsTest) (fits : clause.Fits) :
    Derives p 0 (comparisonTokens subject c ++ .keyword .and :: clause.tokens) f ↔
      f = .join .and (writtenComparison subject c) clause.written := by
  constructor
  · intro read
    obtain ⟨head, tail, start, plain, positive⟩ := (testRead_comparison h c).exists_head
    generalize heq : comparisonTokens subject c ++ _ = ts at read
    cases read with
    | test read =>
        rw [← heq] at read
        exact absurd read (not_testRead_comparison_append h c _ _ _)
    | group _ =>
        rw [start] at heq
        obtain ⟨rfl, -⟩ := List.cons.inj heq
        cases plain
    | negate _ _ =>
        rw [start] at heq
        exact absurd (List.cons.inj heq).1 positive
    | join op _ left right =>
        -- the operator is the one between the two, or it would stand inside the test
        rcases append_keyword_cases (isKeyword_comparisonTokens h c) heq.symm with
          ⟨rfl, same, rfl⟩ | ⟨us, rfl, split⟩
        · obtain rfl : op = .and := by cases op <;> first | rfl | cases same
          rw [(derives_comparison_iff h c).1 left, (isTest.derives_iff fits).1 right]
        · exact absurd right (isTest.not_derives_of_split fits split)
  · rintro rfl
    exact .join .and (Nat.zero_le _) ((derives_comparison_iff h c).2 rfl)
      ((isTest.derives_iff fits).2 rfl)

end Clause

/-! ### The formula of a key condition -/

namespace KeyClause

/-- The formula of a key condition. -/
def formula (key : KeyClause ν β) : Formula ν β :=
  let partition := Formula.test (.compare (.path key.partitionKey) .eq (.value key.partition))
  match key.sort with
  | none => partition
  | some sort => .join .and partition sort.formula

/-- The formula of a key condition as it is written. -/
def written (key : PlacedKeyClause) : Formula WrittenName String :=
  (key.map NamePlaceholder.written ValuePlaceholder.text).formula

/-- The partition key is a name, and the sort key has a single test. -/
@[mk_iff fits_iff]
structure Fits (key : KeyClause ν β) : Prop where
  partition : startsWithName key.partitionKey = true
  sort : ∀ sort ∈ key.sort, sort.Fits ∧ sort.IsTest

@[simp] theorem fits_map (g : ν → ν') (g' : β → β') (key : KeyClause ν β) :
    (key.map g g').Fits ↔ key.Fits := by
  obtain ⟨partitionKey, partition, sort⟩ := key
  cases sort <;> simp [map, fits_iff]

theorem map_map {ν'' β'' : Type} (g' : ν' → ν'') (h' : β' → β'') (g : ν → ν') (h : β → β')
    (key : KeyClause ν β) : (key.map g h).map g' h' = key.map (g' ∘ g) (h' ∘ h) := by
  obtain ⟨partitionKey, partition, sort⟩ := key
  cases sort <;> simp [map]

variable {key : PlacedKeyClause}

/-- The text of a key condition is read as its formula and as nothing else, however strongly
operators bind. No grouping is left open, as there is one conjunction at most. -/
theorem derives_iff (fits : key.Fits) : Derives p 0 key.tokens f ↔ f = key.written := by
  obtain ⟨partitionKey, partition, sort⟩ := key
  have named : startsWithName (Subject.itself partitionKey).path = true := fits.partition
  cases sort with
  | none =>
      have alone := Clause.derives_comparison_iff (p := p) (n := 0) (f := f) named (.eq, partition)
      rwa [← List.append_nil (Clause.comparisonTokens _ _)] at alone
  | some sort =>
      obtain ⟨fits, isTest⟩ := fits.sort sort rfl
      exact isTest.derives_and_iff named (.eq, partition) fits

/-- The formula of a key condition over one side of entries, resolved, is that of the key condition
over their other side. -/
theorem resolve_formula {ε δ : Type} {names : ν → Option ν'} {values : β → Option β'} {g : ε → ν}
    {g' : ε → ν'} {h : δ → β} {h' : δ → β'} {entries : KeyClause ε δ}
    (named : ∀ e ∈ entries.names, names (g e) = some (g' e))
    (valued : ∀ v ∈ entries.literals, values (h v) = some (h' v)) :
    (entries.map g h).formula.resolve names values = some (entries.map g' h').formula := by
  obtain ⟨path, partition, sort⟩ := entries
  rw [KeyClause.names, List.forall_mem_append] at named
  rw [KeyClause.literals, List.forall_mem_cons] at valued
  have first := resolvePath_map named.1
  cases sort with
  | none => simp [map, formula, Formula.resolve, Test.resolve, Term.resolve, first, valued.1]
  | some sort =>
      have second : (sort.map g h).formula.resolve names values = _ :=
        Clause.resolve_formula named.2 valued.2
      simp [map, formula, Formula.resolve, Test.resolve, Term.resolve, first, valued.1, second]

end KeyClause

/-! ### What key conditions ask for -/

/-- The test of an attribute. -/
def SortTest.on (name : String) : SortTest → Test String Json
  | eq value => .compare (.path [.name name]) .eq (.value value)
  | lt value => .compare (.path [.name name]) .lt (.value value)
  | le value => .compare (.path [.name name]) .le (.value value)
  | gt value => .compare (.path [.name name]) .gt (.value value)
  | ge value => .compare (.path [.name name]) .ge (.value value)
  | beginsWith start => .call .beginsWith [.name name] (some (.value start))
  | between lower upper => .between (.path [.name name]) (.value lower) (.value upper)

/-- A test of the sort key is drafted as a single test, so that no conditions but these become key
conditions. -/
theorem SortTest.of_draft {name : String} {test : SortTest} {clause : Clause String Json}
    (ok : (Condition.field name test.toCondition).draft [] .and = .ok clause) :
    clause.formula = .test (test.on name) ∧ clause.Fits ∧ clause.IsTest := by
  cases test with
  | beginsWith start =>
      cases ok
      exact ⟨rfl, ⟨rfl, rfl⟩, trivial⟩
  | between lower upper =>
      cases ok
      exact ⟨rfl, rfl, trivial⟩
  | _ =>
      cases ok
      exact ⟨rfl, rfl, rfl⟩

namespace KeyCondition

/-- What a key condition asks for: its partition, and its test of the sort key. -/
def formula (key : KeyCondition) : Formula String Json :=
  let partition :=
    Formula.test (.compare (.path [.name key.partitionKey]) .eq (.value key.partition))
  match key.sort with
  | none => partition
  | some (sortKey, test) => .join .and partition (.test (test.on sortKey))

theorem of_draft {key : KeyCondition} {draft : KeyClause String Json}
    (ok : key.draft = .ok draft) : draft.formula = key.formula ∧ draft.Fits := by
  obtain ⟨partitionKey, partition, sort⟩ := key
  cases sort with
  | none =>
      cases ok
      exact ⟨rfl, rfl, nofun⟩
  | some sort =>
      obtain ⟨sortKey, test⟩ := sort
      obtain ⟨clause, drafted, ok⟩ := exists_of_except_bind ok
      cases ok
      obtain ⟨formula, fits, isTest⟩ := SortTest.of_draft drafted
      refine ⟨congrArg (Formula.join .and _) formula, rfl, ?_⟩
      rintro _ ⟨⟩
      exact ⟨fits, isTest⟩

end KeyCondition

/-! ### What requests ask for -/

/-- The name that the names of a request have for what is written. -/
def WrittenName.nameIn? (names : Dict String) : WrittenName → Option String
  | ref text => Dict.get? names text
  | word letters => some (String.ofList letters)

namespace Table

variable {t : Table}

/-- The stored form of a value that has one. -/
def storedForm? (t : Table) (value : Json) : Option Attribute :=
  (t.marshaller.encode value).toOption

/-- The text of the key condition of a request can be read in one way, however strongly operators
bind. With what its placeholders stand for in their places, that is what a key condition asks for,
with its values as they are stored. -/
def Asks (t : Table) (r : Request.Query) (key : KeyCondition) : Prop :=
  ∃ written asked, (∀ p f, Derives p 0 (tokens r.keyCondition) f ↔ f = written) ∧
    written.resolve (WrittenName.nameIn? r.names) (Dict.get? r.values) = some asked ∧
    key.formula.resolve some t.storedForm? = some asked

/-- The request of a query asks for its partition and its test, in the text that is sent and with
what its placeholders stand for. -/
theorem QueryMade.asks {index : Option String} {partition : Json} {options : QueryOptions}
    {r : Request.Query} {schema : KeySchema} {sort : Option (String × SortTest)}
    {clause : PlacedKeyClause} {middle last : Registry}
    (made : t.QueryMade index partition options r schema sort clause middle last) :
    t.Asks r ⟨schema.partitionKey, partition, sort⟩ := by
  obtain ⟨draft, drafted, place⟩ :=
    (KeyCondition.follows_compile _).exists_draft made.compiled
  obtain ⟨formula, fits⟩ := KeyCondition.of_draft drafted
  obtain ⟨entries, rfl, out, placed⟩ := draft.exists_entries .empty
  rw [place] at out placed
  subst out
  have named : ∀ entry ∈ entries.names, Dict.get? r.names entry.1.text = some entry.2 :=
    fun entry mem => made.get?_names (placed.mem_names entry mem)
  -- the request has the stored form of each value, since it could not be made otherwise
  let value (entry : ValueEntry) : Attribute := (t.storedForm? entry.2).getD default
  have isValue : ∀ entry ∈ entries.literals, t.storedForm? entry.2 = some (value entry) ∧
      Dict.get? r.values entry.1.text = some (value entry) := by
    intro entry mem
    have mem : entry ∈ middle.values := by
      rw [placed.values_eq]
      exact List.mem_append_right _ mem
    obtain ⟨a, encoded, found⟩ := made.exists_get?_values mem
    have stored : t.storedForm? entry.2 = some a := by
      rw [storedForm?, encoded]
      rfl
    simp only [value, stored, found, Option.getD_some, and_self]
  refine ⟨(entries.map Prod.fst Prod.fst).written, (entries.map Prod.snd value).formula,
    fun p f => ?_, ?_, ?_⟩
  · rw [made.text, KeyClause.tokens_text]
    refine KeyClause.derives_iff ?_
    rw [KeyClause.fits_map] at fits ⊢
    exact fits
  · rw [KeyClause.written, KeyClause.map_map]
    exact KeyClause.resolve_formula named fun entry mem => (isValue entry mem).2
  · rw [← formula]
    exact KeyClause.resolve_formula (fun _ _ => rfl) fun entry mem => (isValue entry mem).1

end Table

end DocumentTable
