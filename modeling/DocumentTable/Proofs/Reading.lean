import DocumentTable.Proofs.ExpressionTokens
import DocumentTable.Proofs.Grammar

/-!
# Reading conditions

The text of a clause is read as the clause says, however strongly operators bind, and in no other
way but for the grouping of conjunctions.

## Main definitions

* `Clause.Fits`: a clause whose paths start with names and whose calls have their arguments
* `Clause.written`: the formula of a clause as it is written

## Main results

* `Clause.derives`: the text of a clause is read as its formula
* `Clause.sameUpToAnd_of_derives`: it is read as nothing else

## Design notes

Only the comparisons of one subject stand next to each other without parentheses. Between any other
operators there are, so that no strength decides between two readings.
-/

namespace DocumentTable

variable {ν ν' β β' : Type}

/-! ### Clauses that can be read -/

/-- Whether a path starts with a name. -/
def startsWithName : List (Step ν) → Bool
  | .name _ :: _ => true
  | _ => false

/-- Whether a path starts with a name does not depend on what the names are. -/
@[simp] theorem startsWithName_map (f : ν → ν') (path : List (Step ν)) :
    startsWithName (path.map (Step.map f)) = startsWithName path := by
  cases path with
  | nil => rfl
  | cons step rest => cases step <;> rfl

/-- The paths of a clause start with names, and its calls have the arguments of their functions. -/
def Clause.Fits : Clause ν β → Prop
  | compare subject _ _ => startsWithName subject.path = true
  | between path _ _ => startsWithName path = true
  | oneOf path _ _ => startsWithName path = true
  | call callee path argument =>
    startsWithName path = true ∧ callee.takesArgument = argument.isSome
  | negate clause => clause.Fits
  | join _ left right => left.Fits ∧ right.Fits

/-- Whether a clause can be read does not depend on what its names and values are. -/
@[simp] theorem Clause.fits_map (f : ν → ν') (g : β → β') (clause : Clause ν β) :
    (clause.map f g).Fits ↔ clause.Fits := by
  induction clause with
  | negate clause ih => exact ih
  | join op left right ihl ihr => exact and_congr ihl ihr
  | _ => simp [map, Fits]

/-! ### Reading operands and tests -/

/-- A placeholder of a name as it is written. -/
def NamePlaceholder.written (p : NamePlaceholder) : WrittenName :=
  .ref p.text

/-- A path as it is written. -/
def PlacedPath.written (path : PlacedPath) : List (Step WrittenName) :=
  path.map (Step.map NamePlaceholder.written)

/-- The steps of a path are read as they were written, by induction on the path. -/
theorem stepsRead (path : PlacedPath) :
    StepsRead (stepsTokens false path) (PlacedPath.written path) := by
  induction path with
  | nil => exact .nil
  | cons step rest ih =>
      cases step with
      | name p => exact .name (.ref p.text) ih
      | index i => exact .index (Path.readPosition_toDigits i) ih

/-- A path is read as it was written, if it starts with a name. Paths that start with an index have
no place in the grammar. -/
theorem pathRead {path : PlacedPath} (h : startsWithName path = true) :
    PathRead (stepsTokens true path) (PlacedPath.written path) := by
  cases path with
  | nil => cases h
  | cons step rest =>
      cases step with
      | name p => exact .name (.ref p.text) (stepsRead rest)
      | index i => cases h

/-- The subject of a test is read as a term, be it a path or the size of what is there. -/
theorem Subject.termRead {subject : Subject NamePlaceholder}
    (h : startsWithName subject.path = true) :
    TermRead subject.tokens (subject.map NamePlaceholder.written).term := by
  cases subject with
  | itself path => exact .path (pathRead h)
  | size path => exact .size (pathRead h)

/-- Candidates are read as a list of terms, split at their commas. -/
theorem termsRead (first : ValuePlaceholder) (rest : List ValuePlaceholder) :
    TermsRead (.valueRef first.text :: rest.flatMap fun v => [.mark ',', .valueRef v.text])
      (.value first.text) (rest.map fun v => .value v.text) := by
  induction rest generalizing first with
  | nil => exact .single (.value first.text)
  | cons second rest ih => exact .cons (.value first.text) (ih second)

namespace Clause

/-- The formula of a clause as it is written. -/
def written (clause : PlacedClause) : Formula WrittenName String :=
  (clause.map NamePlaceholder.written ValuePlaceholder.text).formula

/-- The test of one comparison as it is written. -/
def writtenComparison (subject : Subject NamePlaceholder) (c : CompareOp × ValuePlaceholder) :
    Formula WrittenName String :=
  .test (.compare (subject.map NamePlaceholder.written).term c.1 (.value c.2.text))

theorem testRead_comparison {subject : Subject NamePlaceholder}
    (h : startsWithName subject.path = true) (c : CompareOp × ValuePlaceholder) :
    TestRead (comparisonTokens subject c)
      (.compare (subject.map NamePlaceholder.written).term c.1 (.value c.2.text)) :=
  .compare c.1 (Subject.termRead h) (.value c.2.text)

/-- The test of a range is read as a test, with the conjunction in it. -/
theorem testRead_between {path : PlacedPath} (h : startsWithName path = true)
    (lower upper : ValuePlaceholder) :
    TestRead (tokens (.between path lower upper))
      (.between (.path (PlacedPath.written path)) (.value lower.text) (.value upper.text)) :=
  .between (.path (pathRead h)) (.value lower.text) (.value upper.text)

theorem testRead_oneOf {path : PlacedPath} (h : startsWithName path = true)
    (first : ValuePlaceholder) (rest : List ValuePlaceholder) :
    TestRead (tokens (.oneOf path first rest))
      (.oneOf (.path (PlacedPath.written path)) (.value first.text)
        (rest.map fun v => .value v.text)) := by
  have read := TestRead.oneOf (.path (pathRead h)) (termsRead first rest)
  rw [tokens]
  simpa using read

/-- A call is read as a test. It has to have as many arguments as its function takes. -/
theorem testRead_call {callee : Callee} {path : PlacedPath} {argument : Option ValuePlaceholder}
    (h : startsWithName path = true) (h' : callee.takesArgument = argument.isSome) :
    TestRead (tokens (.call callee path argument))
      (.call callee (PlacedPath.written path) (argument.map fun v => .value v.text)) := by
  cases argument with
  | none =>
      have read := TestRead.check h' (pathRead h)
      simpa [tokens] using read
  | some v =>
      have read := TestRead.call h' (pathRead h) (.value v.text)
      simpa [tokens] using read

/-! ### Every clause is read -/

/-- The tokens of comparisons of one subject. -/
def chainTokens (subject : Subject NamePlaceholder) (first : CompareOp × ValuePlaceholder)
    (rest : List (CompareOp × ValuePlaceholder)) : List Token :=
  comparisonTokens subject first ++
    rest.flatMap fun c => .keyword .and :: comparisonTokens subject c

/-- The formula of comparisons of one subject as it is written. -/
def writtenChain (subject : Subject NamePlaceholder) (first : CompareOp × ValuePlaceholder)
    (rest : List (CompareOp × ValuePlaceholder)) : Formula WrittenName String :=
  conjoin (writtenComparison subject first) (rest.map (writtenComparison subject))

theorem written_compare (subject : Subject NamePlaceholder)
    (first : CompareOp × ValuePlaceholder) (rest : List (CompareOp × ValuePlaceholder)) :
    written (.compare subject first rest) = writtenChain subject first rest := by
  rw [written, map, formula, List.map_map]
  rfl

/-- The formula of a membership test has a term for each candidate. -/
theorem written_oneOf (path : PlacedPath) (first : ValuePlaceholder)
    (rest : List ValuePlaceholder) :
    written (.oneOf path first rest) =
      .test (.oneOf (.path (PlacedPath.written path)) (.value first.text)
        (rest.map fun v => .value v.text)) := by
  rw [written, map, formula, List.map_map]
  rfl

/-- The formula of a call has a term for the argument, if there is one. -/
theorem written_call (callee : Callee) (path : PlacedPath) (argument : Option ValuePlaceholder) :
    written (.call callee path argument) =
      .test (.call callee (PlacedPath.written path) (argument.map fun v => .value v.text)) := by
  rw [written, map, formula, Option.map_map]
  rfl

/-- Comparisons are read as a conjunction that groups to the right, where conjunctions are allowed.
The bound says so, as no parentheses stand around them. -/
theorem derives_chain {p : Precedence} {subject : Subject NamePlaceholder}
    (h : startsWithName subject.path = true) (first : CompareOp × ValuePlaceholder)
    (rest : List (CompareOp × ValuePlaceholder)) {n : Nat} (hn : n ≤ p.and) :
    Derives p n (chainTokens subject first rest) (writtenChain subject first rest) := by
  -- from the right, as the formula is grouped from the left
  induction rest using List.reverseRecOn generalizing n with
  | nil =>
      rw [chainTokens, List.flatMap_nil, List.append_nil]
      exact .test (testRead_comparison h first)
  | append_singleton rest c ih =>
      have joined := Derives.join .and hn (ih le_rfl)
        (Derives.test (testRead_comparison h c))
      simpa [chainTokens, writtenChain, writtenComparison, conjoin, List.foldl_append,
        LogicalOp.keyword] using joined

/-- The text of a clause is read as its formula, however strongly operators bind. The bound is the
loosest one, since a clause stands alone or in parentheses. -/
theorem derives (p : Precedence) {clause : PlacedClause} (h : clause.Fits) :
    Derives p 0 clause.tokens clause.written := by
  induction clause with
  | compare subject first rest =>
      rw [written_compare]
      exact derives_chain h first rest (Nat.zero_le _)
  | between path lower upper => exact .test (testRead_between h lower upper)
  | oneOf path first rest =>
      rw [written_oneOf]
      exact .test (testRead_oneOf h first rest)
  | call callee path argument =>
      rw [written_call]
      exact .test (testRead_call h.1 h.2)
  | negate clause ih => exact .negate (Nat.zero_le _) (.group (ih h))
  | join op left right ihl ihr =>
      have joined := Derives.join op (Nat.zero_le _) (.group (ihl h.1)) (.group (ihr h.2))
      simpa [tokens, written, map, formula] using joined

end Clause

/-! ### Where a text can be split -/

/-- Whether a token is a keyword. -/
def Token.isKeyword : Token → Bool
  | keyword _ => true
  | _ => false

/-- An operator behind tokens without keywords either is the first keyword there or stands behind
it. Readings are told apart by which operator they split at. -/
theorem append_keyword_cases {ts us vs ws : List Token} {k k' : Keyword}
    (hts : ∀ t ∈ ts, t.isKeyword = false)
    (h : vs ++ .keyword k :: ws = ts ++ .keyword k' :: us) :
    (vs = ts ∧ k = k' ∧ ws = us) ∨
      ∃ vs', vs = ts ++ .keyword k' :: vs' ∧ vs' ++ .keyword k :: ws = us := by
  -- both sides lose their first tokens together, until one of the operators comes
  induction ts generalizing vs with
  | nil =>
      cases vs with
      | nil =>
          obtain ⟨same, rfl⟩ := List.cons.inj h
          exact .inl ⟨rfl, Token.keyword.inj same, rfl⟩
      | cons t vs =>
          obtain ⟨rfl, tail⟩ := List.cons.inj h
          exact .inr ⟨vs, rfl, tail⟩
  | cons t ts ih =>
      rw [List.forall_mem_cons] at hts
      cases vs with
      | nil =>
          obtain ⟨rfl, -⟩ := List.cons.inj h
          cases hts.1
      | cons t' vs =>
          obtain ⟨rfl, tail⟩ := List.cons.inj h
          rcases ih hts.2 tail with ⟨rfl, rest⟩ | ⟨vs', rfl, rest⟩
          · exact .inl ⟨rfl, rest⟩
          · exact .inr ⟨vs', rfl, rest⟩

theorem not_mem_keyword {ts : List Token} (h : ∀ t ∈ ts, t.isKeyword = false) (k : Keyword) :
    Token.keyword k ∉ ts := by
  intro mem
  cases h _ mem

/-- Keywords are delimiters, so what has no delimiters has no keywords. -/
theorem Token.isKeyword_of_isDelimiter {t : Token} (h : t.isDelimiter = false) :
    t.isKeyword = false := by
  cases t with
  | keyword k => cases h
  | _ => rfl

/-- In the path of a test there are no keywords. -/
theorem isKeyword_stepsTokens {path : PlacedPath} (h : startsWithName path = true) :
    ∀ t ∈ stepsTokens true path, t.isKeyword = false :=
  fun t mem => Token.isKeyword_of_isDelimiter ((pathRead h).isDelimiter_eq_false t mem)

section Derives

variable {p : Precedence} {n : Nat} {ts : List Token} {f : Formula WrittenName String}

/-- A value alone is no formula. It is what would be left of the test of a range behind its
conjunction. -/
theorem not_derives_valueRef (text : String) : ¬ Derives p n [.valueRef text] f := by
  intro h
  generalize heq : [Token.valueRef text] = ts at h
  cases h with
  | test h =>
      have delimiter := h.delimiter?_eq
      cases h with
      | check _ _ => cases heq
      | call _ _ _ => cases heq
      | _ =>
          rw [← heq] at delimiter
          cases delimiter
  | group _ => cases heq
  | negate _ _ => cases heq
  | @join _ us _ _ _ _ _ left _ =>
      cases us with
      | nil => cases heq
      | cons t us => cases us <;> cases (List.cons.inj heq).2

/-- A test is read as nothing else unless an operator can be taken out of it. The last hypothesis
excludes that: what stands behind any operator is no formula. -/
theorem Derives.eq_test {t : Test WrittenName String} (h : Derives p n ts f) (read : TestRead ts t)
    (whole : ∀ (op : LogicalOp) (us vs : List Token), us ++ .keyword op.keyword :: vs = ts →
      ∀ m g, ¬ Derives p m vs g) : f = .test t := by
  obtain ⟨first, rest, head, plain, positive⟩ := read.exists_head
  cases h with
  | test h => rw [h.unique read]
  | group _ =>
      obtain ⟨rfl, -⟩ := List.cons.inj head
      cases plain
  | negate _ _ => exact absurd (List.cons.inj head).1.symm positive
  | join op _ _ right => exact absurd right (whole op _ _ rfl _ _)

end Derives

namespace Clause

/-! ### No clause is read in another way -/

theorem isKeyword_comparisonTokens {subject : Subject NamePlaceholder}
    (h : startsWithName subject.path = true) (c : CompareOp × ValuePlaceholder) :
    ∀ t ∈ comparisonTokens subject c, t.isKeyword = false := by
  have operand := (Subject.termRead h).isDelimiter_eq_false
  rw [comparisonTokens, List.forall_mem_append]
  exact ⟨fun t mem => Token.isKeyword_of_isDelimiter (operand t mem), by simp [Token.isKeyword]⟩

/-- Comparisons are written one behind the other with conjunctions between them. -/
theorem chainTokens_cons (subject : Subject NamePlaceholder)
    (first c : CompareOp × ValuePlaceholder) (rest : List (CompareOp × ValuePlaceholder)) :
    chainTokens subject first (c :: rest) =
      comparisonTokens subject first ++ .keyword .and :: chainTokens subject c rest := by
  rw [chainTokens, List.flatMap_cons, List.cons_append]
  rfl

/-- An operator in comparisons stands between two of them, and is a conjunction. -/
theorem exists_split_chainTokens {subject : Subject NamePlaceholder}
    (h : startsWithName subject.path = true) {first : CompareOp × ValuePlaceholder}
    {rest : List (CompareOp × ValuePlaceholder)} {ts us : List Token} {k : Keyword}
    (heq : ts ++ .keyword k :: us = chainTokens subject first rest) :
    ∃ before c after, rest = before ++ c :: after ∧ k = .and ∧
      ts = chainTokens subject first before ∧ us = chainTokens subject c after := by
  induction rest generalizing first ts with
  | nil =>
      rw [chainTokens, List.flatMap_nil, List.append_nil] at heq
      refine absurd ?_ (not_mem_keyword (isKeyword_comparisonTokens h first) k)
      simp [← heq]
  | cons c rest ih =>
      rw [chainTokens_cons] at heq
      rcases append_keyword_cases (isKeyword_comparisonTokens h first) heq with
        ⟨rfl, rfl, rfl⟩ | ⟨ts', rfl, tail⟩
      · refine ⟨[], c, rest, rfl, rfl, ?_, rfl⟩
        rw [chainTokens, List.flatMap_nil, List.append_nil]
      · obtain ⟨before, c', after, rfl, rfl, rfl, rfl⟩ := ih tail
        exact ⟨c :: before, c', after, rfl, rfl, (chainTokens_cons _ _ _ _).symm, rfl⟩

/-- A comparison with an operator behind it is no test, since a test ends with its value. -/
theorem not_testRead_comparison_append {subject : Subject NamePlaceholder}
    (h : startsWithName subject.path = true) (c : CompareOp × ValuePlaceholder) (k : Keyword)
    (us : List Token) (t : Test WrittenName String) :
    ¬ TestRead (comparisonTokens subject c ++ .keyword k :: us) t := by
  intro read
  have left := (Subject.termRead h).isDelimiter_eq_false
  rw [comparisonTokens, List.append_assoc] at read
  have delimiter := read.delimiter?_eq.symm.trans (delimiter?_append left rfl)
  generalize heq : subject.tokens ++ _ = ts at read
  cases read with
  | compare op left' right =>
      obtain ⟨-, -, rfl⟩ := append_delimiter_inj left left'.isDelimiter_eq_false rfl rfl heq
      -- the operator behind the value would be part of an operand
      cases right.isDelimiter_eq_false (.keyword k) (by simp)
  | _ => cases delimiter

/-- Two comparisons or more are no test, so that they are read as a conjunction if they are read at
all. -/
theorem not_testRead_chainTokens {subject : Subject NamePlaceholder}
    (h : startsWithName subject.path = true) (first c : CompareOp × ValuePlaceholder)
    (rest : List (CompareOp × ValuePlaceholder)) (t : Test WrittenName String) :
    ¬ TestRead (chainTokens subject first (c :: rest)) t := by
  rw [chainTokens_cons]
  exact not_testRead_comparison_append h first .and _ t

/-- Comparisons of one subject are read as their conjunction, however it is grouped. The induction
is on the reading, which may split at any of the operators and leaves comparisons on both sides. -/
theorem sameUpToAnd_chain {p : Precedence} {n : Nat} {f : Formula WrittenName String}
    {subject : Subject NamePlaceholder} (h : startsWithName subject.path = true)
    {first : CompareOp × ValuePlaceholder} {rest : List (CompareOp × ValuePlaceholder)}
    (read : Derives p n (chainTokens subject first rest) f) :
    SameUpToAnd f (writtenChain subject first rest) := by
  generalize heq : chainTokens subject first rest = ts at read
  -- by induction on the reading; what an operator is read between are comparisons again
  induction read generalizing first rest with
  | test read =>
      subst heq
      cases rest with
      | nil =>
          rw [chainTokens, List.flatMap_nil, List.append_nil] at read
          rw [read.unique (testRead_comparison h first)]
          exact .refl _
      | cons c rest => exact absurd read (not_testRead_chainTokens h first c rest _)
  | group _ _ =>
      obtain ⟨head, tail, start, plain, -⟩ := (testRead_comparison h first).exists_head
      rw [chainTokens, start] at heq
      obtain ⟨rfl, -⟩ := List.cons.inj heq
      cases plain
  | negate _ _ _ =>
      obtain ⟨head, tail, start, -, positive⟩ := (testRead_comparison h first).exists_head
      rw [chainTokens, start] at heq
      exact absurd (List.cons.inj heq).1 positive
  | join op _ _ _ ihl ihr =>
      obtain ⟨before, c, after, rfl, isAnd, rfl, rfl⟩ := exists_split_chainTokens h heq.symm
      obtain rfl : op = .and := by
        cases op with
        | and => rfl
        | or => cases isAnd
      have joined := sameUpToAnd_conjoin (writtenComparison subject first)
        (before.map (writtenComparison subject)) (writtenComparison subject c)
        (after.map (writtenComparison subject))
      rw [writtenChain, List.map_append, List.map_cons]
      exact .trans (.join .and (ihl rfl) (ihr rfl)) joined

/-- What stands behind an operator in the test of a range is no formula. The only operator there is
the conjunction of the range. -/
theorem not_derives_of_split_between {p : Precedence} {n : Nat} {f : Formula WrittenName String}
    {path : PlacedPath} (h : startsWithName path = true) {lower upper : ValuePlaceholder}
    {op : LogicalOp} {us vs : List Token}
    (heq : us ++ .keyword op.keyword :: vs = tokens (.between path lower upper)) :
    ¬ Derives p n vs f := by
  intro right
  -- an operator could be the second keyword only, and then only a value stands behind it
  have bound : ∀ t ∈ [Token.valueRef lower.text], t.isKeyword = false := by
    simp [Token.isKeyword]
  rcases append_keyword_cases (isKeyword_stepsTokens h) heq with ⟨-, same, -⟩ | ⟨us', -, tail⟩
  · cases op <;> cases same
  · rcases append_keyword_cases bound tail with ⟨-, -, rfl⟩ | ⟨us'', -, none⟩
    · exact not_derives_valueRef _ right
    · have mem : Token.keyword op.keyword ∈ [Token.valueRef upper.text] := by simp [← none]
      cases List.mem_singleton.mp mem

/-- The conjunction in the test of a range is part of the test, although it looks like one between
two formulas. -/
theorem eq_test_between {p : Precedence} {n : Nat} {f : Formula WrittenName String}
    {path : PlacedPath} (h : startsWithName path = true) {lower upper : ValuePlaceholder}
    (read : Derives p n (tokens (.between path lower upper)) f) :
    f = .test
      (.between (.path (PlacedPath.written path)) (.value lower.text) (.value upper.text)) :=
  read.eq_test (testRead_between h lower upper) fun _ _ _ heq _ _ =>
    not_derives_of_split_between h heq

/-- There is no operator in a membership test. -/
theorem not_mem_operator_oneOf {path : PlacedPath} (h : startsWithName path = true)
    (first : ValuePlaceholder) (rest : List ValuePlaceholder) (op : LogicalOp) :
    Token.keyword op.keyword ∉ tokens (.oneOf path first rest) := by
  have plain := not_mem_keyword (isKeyword_stepsTokens h)
  cases op <;> simp [tokens, plain, LogicalOp.keyword]

/-- There is no operator in a call. -/
theorem not_mem_operator_call {path : PlacedPath} (h : startsWithName path = true)
    (callee : Callee) (argument : Option ValuePlaceholder) (op : LogicalOp) :
    Token.keyword op.keyword ∉ tokens (.call callee path argument) := by
  have plain := not_mem_keyword (isKeyword_stepsTokens h)
  cases argument <;> simp [tokens, plain]

/-- The text of a clause is read as its formula up to the grouping of conjunctions, however strongly
operators bind. The proof is by induction on the clause: operands are in parentheses, and only
comparisons of one subject are not. -/
theorem sameUpToAnd_of_derives {p : Precedence} {n : Nat} {clause : PlacedClause}
    {f : Formula WrittenName String} (h : clause.Fits) (read : Derives p n clause.tokens f) :
    SameUpToAnd f clause.written := by
  induction clause generalizing n f with
  | compare subject first rest =>
      rw [written_compare]
      exact sameUpToAnd_chain h read
  | between path lower upper =>
      rw [eq_test_between h read]
      exact .refl _
  | oneOf path first rest =>
      rw [written_oneOf, read.eq_test (testRead_oneOf h first rest)]
      · exact .refl _
      · intro op us vs heq
        exact absurd (by simp [← heq]) (not_mem_operator_oneOf h first rest op)
  | call callee path argument =>
      rw [written_call, read.eq_test (testRead_call h.1 h.2)]
      · exact .refl _
      · intro op us vs heq
        exact absurd (by simp [← heq]) (not_mem_operator_call h.1 callee argument op)
  | negate clause ih =>
      have fits : clause.Fits := h
      obtain ⟨g, rfl, inner⟩ := read.of_negated (derives p fits).balanced
      exact .negate (ih fits inner)
  | join op left right ihl ihr =>
      have balanced := (derives p h.1).balanced
      have balanced' := (derives p h.2).balanced
      -- both sides stand in parentheses, so the text is read as two groups and the operator
      have read : Derives p n (.mark '(' :: (left.tokens ++ .mark ')' :: .keyword op.keyword ::
          .mark '(' :: (right.tokens ++ [.mark ')']))) f := by
        simpa [tokens] using read
      obtain ⟨g, g', rfl, inner, inner'⟩ := read.of_groups balanced balanced'
      exact .join op (ihl h.1 inner) (ihr h.2 inner')

end Clause

end DocumentTable
