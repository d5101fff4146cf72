import DocumentTable.Proofs.Occurrence
import DocumentTable.Proofs.Token

/-!
# Tokens of the texts of expressions

The text of an expression with placeholders is cut into tokens between its parts and nowhere else,
whatever the placeholders are. So the references in the text are the placeholders in the expression.

## Main definitions

* `stepsTokens`, `Clause.tokens`, `UpdateClauses.tokens`, …: the tokens of an expression, from its
  parts

## Main results

* `Clause.tokens_text`, `UpdateClauses.tokens_text`, `KeyClause.tokens_text`: they are the tokens of
  its text
* `Clause.mem_nameRefs_text`, `Clause.valueRefs_text`, …: the references in a text
-/

namespace DocumentTable

/-! ### Sequences -/

/-- The tokens of texts with separators between them. A separator must keep tokens apart, or the end
of one text and the beginning of the next would be read as one. -/
theorem tokens_intercalate {s : String} (hs : fence s = true) (hne : s ≠ "") (first : String)
    (rest : List String) :
    tokens (String.intercalate s (first :: rest)) =
      tokens first ++ rest.flatMap fun text => tokens s ++ tokens text := by
  induction rest generalizing first with
  | nil => rw [String.intercalate_singleton, List.flatMap_nil, List.append_nil]
  | cons second rest ih =>
      rw [String.intercalate_cons_cons, tokens_fence hs hne, ih, List.flatMap_cons,
        List.append_assoc, List.append_assoc]

/-- A text between brackets is read on its own, whatever it is, as no token goes over a bracket. -/
theorem tokens_bracket {a b s : String} (ha : a.toList.getLast?.all endsToken = true)
    (hb : b.toList.head?.all startsToken = true) :
    tokens (a ++ s ++ b) = tokens a ++ tokens s ++ tokens b := by
  rw [tokens_append_of_startsToken hb, tokens_append_of_endsToken ha]

/-! ### Paths -/

/-- The tokens of a step. -/
def Step.tokens (first : Bool) : Step NamePlaceholder → List Token
  | name p => if first then [.nameRef p.text] else [.mark '.', .nameRef p.text]
  | index i => [.mark '[', .numeral (Nat.toDigits 10 i.toNat), .mark ']']

/-- The tokens of steps. -/
def stepsTokens : (first : Bool) → PlacedPath → List Token
  | _, [] => []
  | first, step :: rest => step.tokens first ++ stepsTokens false rest

/-- A step is written as a placeholder, behind a dot unless it is the first one, or as an index in
brackets. -/
theorem Step.tokens_text (first : Bool) (step : Step NamePlaceholder) :
    DocumentTable.tokens (step.text NamePlaceholder.text first) = step.tokens first := by
  cases step with
  | name p =>
      cases first with
      | true => exact tokens_nameText p
      | false =>
          show DocumentTable.tokens ("." ++ p.text) = _
          rw [tokens_append_of_endsToken (by decide), tokens_nameText]
          rfl
  | index i =>
      show DocumentTable.tokens ("[" ++ toString i.toNat ++ "]") = _
      rw [tokens_bracket (by decide) (by decide), tokens_toString]
      rfl

/-- Steps behind others start a new token, be it a dot or a bracket. -/
theorem startsToken_stepsText (path : PlacedPath) :
    (stepsText NamePlaceholder.text false path).toList.head?.all startsToken = true := by
  cases path with
  | nil => rfl
  | cons step rest =>
      cases step with
      | name p => simp [stepsText, Step.text, startsToken, isWordChar, isComparisonChar]
      | index i => simp [stepsText, Step.text, startsToken, isWordChar, isComparisonChar]

/-- The tokens of steps are those of each of them, by induction on the path. -/
theorem tokens_stepsText (first : Bool) (path : PlacedPath) :
    tokens (stepsText NamePlaceholder.text first path) = stepsTokens first path := by
  induction path generalizing first with
  | nil => cases first <;> rfl
  | cons step rest ih =>
      rw [stepsText, tokens_append_of_startsToken (startsToken_stepsText rest), step.tokens_text,
        ih]
      cases first <;> rfl

/-- The tokens of a path are those of its steps. -/
@[simp] theorem PlacedPath.tokens_text (path : PlacedPath) :
    tokens (PlacedPath.text path) = stepsTokens true path :=
  tokens_stepsText true path

/-! ### Conditions -/

/-- The letters of the function that gives the size of an attribute. -/
def sizeLetters : List Char :=
  ['s', 'i', 'z', 'e']

namespace Subject

/-- The tokens of a subject. -/
def tokens : Subject NamePlaceholder → List Token
  | itself path => stepsTokens true path
  | size path => [.word sizeLetters, .mark '('] ++ stepsTokens true path ++ [.mark ')']

/-- The subject of a test is written as a path, or as one between the brackets of a function. -/
@[simp] theorem tokens_text (subject : Subject NamePlaceholder) :
    DocumentTable.tokens subject.text = subject.tokens := by
  cases subject with
  | itself path => exact PlacedPath.tokens_text path
  | size path =>
      rw [text, tokens_bracket (by decide) (by decide), PlacedPath.tokens_text]
      rfl

end Subject

namespace Clause

/-- The tokens of one comparison. -/
def comparisonTokens (subject : Subject NamePlaceholder)
    (comparison : CompareOp × ValuePlaceholder) : List Token :=
  subject.tokens ++ [.comparison comparison.1, .valueRef comparison.2.text]

/-- The tokens of a clause. -/
def tokens : PlacedClause → List Token
  | compare subject first rest =>
    comparisonTokens subject first ++
      rest.flatMap fun comparison => .keyword .and :: comparisonTokens subject comparison
  | between path lower upper =>
    stepsTokens true path ++
      [.keyword .between, .valueRef lower.text, .keyword .and, .valueRef upper.text]
  | oneOf path first rest =>
    stepsTokens true path ++ [.keyword .oneOf, .mark '(', .valueRef first.text] ++
      (rest.flatMap fun value => [.mark ',', .valueRef value.text]) ++ [.mark ')']
  | call callee path argument =>
    [.word callee.name.toList, .mark '('] ++ stepsTokens true path ++
      (argument.elim [] fun value => [.mark ',', .valueRef value.text]) ++ [.mark ')']
  | negate clause => [.keyword .not, .mark '('] ++ clause.tokens ++ [.mark ')']
  | join op left right =>
    .mark '(' :: left.tokens ++ [.mark ')', .keyword op.keyword, .mark '('] ++ right.tokens ++
      [.mark ')']

/-- A comparison is written as its subject, an operator and a value. -/
theorem tokens_comparisonText (subject : Subject NamePlaceholder)
    (comparison : CompareOp × ValuePlaceholder) :
    DocumentTable.tokens (comparisonText subject comparison) =
      comparisonTokens subject comparison := by
  obtain ⟨op, v⟩ := comparison
  have blank : DocumentTable.tokens " " = [] := by decide
  have comparison : DocumentTable.tokens op.text = [.comparison op] := by
    cases op <;> decide
  rw [comparisonText, tokens_fence (s := " ") (by decide) (by decide),
    tokens_fence (s := " ") (by decide) (by decide), blank, comparison, Subject.tokens_text,
    tokens_valueText]
  simp [comparisonTokens]

/-- The name of a function is a word, and the bracket behind it a token of its own. -/
theorem tokens_calleeName (callee : Callee) :
    DocumentTable.tokens (callee.name ++ " (") = [.word callee.name.toList, .mark '('] := by
  cases callee <;> decide

/-- The name of a function ends with a bracket, so that its argument is read on its own. -/
theorem endsToken_calleeName (callee : Callee) :
    (callee.name ++ " (").toList.getLast?.all endsToken = true := by
  cases callee <;> decide

/-- Candidates are written with commas between them. -/
theorem tokens_valuesText (first : ValuePlaceholder) (rest : List ValuePlaceholder) :
    DocumentTable.tokens
        (String.intercalate ", " ((first :: rest).map ValuePlaceholder.text)) =
      .valueRef first.text :: rest.flatMap fun value => [.mark ',', .valueRef value.text] := by
  have comma : DocumentTable.tokens ", " = [.mark ','] := by decide
  rw [List.map_cons, tokens_intercalate (by decide) (by decide), tokens_valueText, List.flatMap_map]
  simp [comma]

/-- The tokens of a clause are those of its parts, by induction on the clause. Brackets around the
parts of a connective keep them apart. -/
@[simp] theorem tokens_text (clause : PlacedClause) :
    DocumentTable.tokens clause.text = clause.tokens := by
  induction clause with
  | compare subject first rest =>
      have and : DocumentTable.tokens " AND " = [.keyword .and] := by decide
      rw [text, List.map_cons, tokens_intercalate (by decide) (by decide), tokens_comparisonText,
        List.flatMap_map, tokens, and]
      simp [tokens_comparisonText]
  | between path lower upper =>
      have between : DocumentTable.tokens " BETWEEN " = [.keyword .between] := by decide
      have and : DocumentTable.tokens " AND " = [.keyword .and] := by decide
      rw [text, tokens_fence (s := " AND ") (by decide) (by decide),
        tokens_fence (s := " BETWEEN ") (by decide) (by decide), PlacedPath.tokens_text,
        tokens_valueText, tokens_valueText, between, and]
      simp [tokens]
  | oneOf path first rest =>
      have oneOf : DocumentTable.tokens " in (" = [.keyword .oneOf, .mark '('] := by decide
      rw [text, tokens_append_of_startsToken (by decide),
        tokens_fence (s := " in (") (by decide) (by decide), PlacedPath.tokens_text,
        tokens_valuesText, oneOf]
      simp [tokens]
      decide
  | call callee path argument =>
      have comma : DocumentTable.tokens ", " = [.mark ','] := by decide
      have close : DocumentTable.tokens ")" = [.mark ')'] := by decide
      cases argument with
      | none =>
          rw [text, tokens_bracket (endsToken_calleeName callee) (by decide), tokens_calleeName,
            PlacedPath.tokens_text, close]
          simp [tokens]
      | some v =>
          rw [text, tokens_append_of_startsToken (by decide),
            tokens_fence (s := ", ") (by decide) (by decide),
            tokens_append_of_endsToken (endsToken_calleeName callee), tokens_calleeName,
            PlacedPath.tokens_text, tokens_valueText, comma, close]
          simp [tokens]
  | negate clause ih =>
      rw [text, tokens_bracket (by decide) (by decide), ih]
      rfl
  | join op left right ihl ihr =>
      have opened : DocumentTable.tokens "(" = [.mark '('] := by decide
      have between : DocumentTable.tokens ") " = [.mark ')'] := by decide
      have reopened : DocumentTable.tokens " (" = [.mark '('] := by decide
      have closed : DocumentTable.tokens ")" = [.mark ')'] := by decide
      have op : DocumentTable.tokens op.text = [.keyword op.keyword] := by cases op <;> decide
      rw [text, tokens_append_of_startsToken (by decide),
        tokens_fence (s := " (") (by decide) (by decide),
        tokens_fence (s := ") ") (by decide) (by decide),
        tokens_append_of_endsToken (a := "(") (by decide), opened, between, reopened, closed, op,
        ihl, ihr]
      simp [tokens]

end Clause

/-! ### Updates -/

/-- The tokens of an operand. -/
def Operand.tokens : Operand NamePlaceholder ValuePlaceholder → List Token
  | path p => stepsTokens true p
  | fallback p v =>
    [.word "if_not_exists".toList, .mark '('] ++ stepsTokens true p ++
      [.mark ',', .valueRef v.text, .mark ')']
  | value v => [.valueRef v.text]

/-- An operand is written as a path, as a value, or as a call with both. -/
@[simp] theorem Operand.tokens_text (operand : Operand NamePlaceholder ValuePlaceholder) :
    DocumentTable.tokens operand.text = operand.tokens := by
  cases operand with
  | path p => exact PlacedPath.tokens_text p
  | fallback p v =>
      have opened : DocumentTable.tokens "if_not_exists(" =
          [.word "if_not_exists".toList, .mark '('] := by decide
      have comma : DocumentTable.tokens ", " = [.mark ','] := by decide
      have closed : DocumentTable.tokens ")" = [.mark ')'] := by decide
      show DocumentTable.tokens
        ("if_not_exists(" ++ PlacedPath.text p ++ ", " ++ v.text ++ ")") = _
      rw [tokens_append_of_startsToken (by decide),
        tokens_fence (s := ", ") (by decide) (by decide),
        tokens_append_of_endsToken (a := "if_not_exists(") (by decide), opened, comma, closed,
        PlacedPath.tokens_text, tokens_valueText]
      simp [tokens]
  | value v => exact tokens_valueText v

/-- The tokens of what an attribute is set to. -/
def AssignedValue.tokens : AssignedValue NamePlaceholder ValuePlaceholder → List Token
  | operand o => o.tokens
  | arithmetic left op right => left.tokens ++ DocumentTable.tokens op.text ++ right.tokens

/-- What is assigned is written as an operand, or as two with an operator between them. -/
@[simp] theorem AssignedValue.tokens_text (value : AssignedValue NamePlaceholder ValuePlaceholder) :
    DocumentTable.tokens value.text = value.tokens := by
  cases value with
  | operand o => exact o.tokens_text
  | arithmetic left op right =>
      have blank : DocumentTable.tokens " " = [] := by decide
      rw [text, tokens_fence (s := " ") (by decide) (by decide),
        tokens_fence (s := " ") (by decide) (by decide), left.tokens_text, right.tokens_text, blank]
      simp [tokens]

/-- The tokens of an assignment. -/
def Assignment.tokens (a : Assignment NamePlaceholder ValuePlaceholder) : List Token :=
  stepsTokens true a.target ++ [.comparison .eq] ++ a.value.tokens

/-- An assignment is written as its target, an equals sign and what is assigned. -/
@[simp] theorem Assignment.tokens_text (a : Assignment NamePlaceholder ValuePlaceholder) :
    DocumentTable.tokens a.text = a.tokens := by
  have eq : DocumentTable.tokens " = " = [.comparison .eq] := by decide
  rw [text, tokens_fence (s := " = ") (by decide) (by decide), PlacedPath.tokens_text,
    a.value.tokens_text, eq]
  rfl

/-- The tokens of parts with commas between them behind a keyword, if there are any. -/
def sectionTokens (k : Keyword) : List (List Token) → List Token
  | [] => []
  | first :: rest => .keyword k :: first ++ rest.flatMap (.mark ',' :: ·)

/-- A section of an update is written as its keyword and its parts with commas between them. There
must be a part, as an empty section is not written at all. -/
theorem tokens_section {α : Type} {k : Keyword} {s : String} {text : α → String}
    {tokensOf : α → List Token} (hs : s.toList.getLast?.all endsToken = true)
    (keyword : tokens s = [.keyword k]) (htext : ∀ x, tokens (text x) = tokensOf x) (first : α)
    (rest : List α) :
    tokens (s ++ String.intercalate ", " ((first :: rest).map text)) =
      sectionTokens k ((first :: rest).map tokensOf) := by
  have comma : tokens ", " = [.mark ','] := by decide
  rw [List.map_cons, tokens_append_of_endsToken hs, tokens_intercalate (by decide) (by decide),
    keyword, comma, List.map_cons, sectionTokens, List.flatMap_map, List.flatMap_map]
  simp [htext]

namespace UpdateClauses

/-- The tokens of an update. -/
def tokens (u : PlacedUpdate) : List Token :=
  sectionTokens .set (u.sets.map Assignment.tokens) ++
    sectionTokens .remove (u.removes.map (stepsTokens true))

/-- The tokens of an update are those of its parts, with both sections or with one of them. -/
@[simp] theorem tokens_text (u : PlacedUpdate) : DocumentTable.tokens u.text = u.tokens := by
  obtain ⟨sets, removes⟩ := u
  -- a part is left out together with its keyword and with the blank between the parts
  have blank : DocumentTable.tokens " " = [] := by decide
  have set : DocumentTable.tokens "SET " = [.keyword .set] := by decide
  have remove : DocumentTable.tokens "REMOVE " = [.keyword .remove] := by decide
  cases sets with
  | nil =>
      cases removes with
      | nil => decide
      | cons p rest =>
          simp only [text, List.isEmpty_nil, if_true, List.isEmpty_cons, Bool.false_eq_true,
            if_false, List.nil_append, String.intercalate_singleton]
          exact tokens_section (by decide) remove PlacedPath.tokens_text p rest
  | cons a sets =>
      cases removes with
      | nil =>
          simp only [text, List.isEmpty_nil, if_true, List.isEmpty_cons, Bool.false_eq_true,
            if_false, List.append_nil, String.intercalate_singleton]
          rw [tokens_section (by decide) set Assignment.tokens_text, tokens]
          exact (List.append_nil _).symm
      | cons p removes =>
          simp only [text, List.isEmpty_cons, Bool.false_eq_true, if_false, List.cons_append,
            List.nil_append, String.intercalate_cons_cons, String.intercalate_singleton]
          rw [tokens_fence (s := " ") (by decide) (by decide),
            tokens_section (by decide) set Assignment.tokens_text,
            tokens_section (by decide) remove PlacedPath.tokens_text, blank, List.append_nil]
          rfl

end UpdateClauses

/-! ### Key conditions and projections -/

/-- The tokens of a key condition. -/
def KeyClause.tokens (key : PlacedKeyClause) : List Token :=
  stepsTokens true key.partitionKey ++ [.comparison .eq, .valueRef key.partition.text] ++
    key.sort.elim [] fun sort => .keyword .and :: sort.tokens

/-- The tokens of a key condition are those of its parts. -/
@[simp] theorem KeyClause.tokens_text (key : PlacedKeyClause) :
    DocumentTable.tokens key.text = key.tokens := by
  obtain ⟨partitionKey, partition, sort⟩ := key
  have eq : DocumentTable.tokens " = " = [.comparison .eq] := by decide
  have and : DocumentTable.tokens " and " = [.keyword .and] := by decide
  cases sort with
  | none =>
      -- nothing follows the value of the partition key
      have alone : KeyClause.text ⟨partitionKey, partition, none⟩ =
          PlacedPath.text partitionKey ++ " = " ++ partition.text := String.append_empty
      rw [alone, tokens_fence (s := " = ") (by decide) (by decide), PlacedPath.tokens_text,
        tokens_valueText, eq]
      simp [tokens]
  | some sort =>
      show DocumentTable.tokens (_ ++ (" and " ++ sort.text)) = _
      rw [← String.append_assoc, tokens_fence (s := " and ") (by decide) (by decide),
        tokens_fence (s := " = ") (by decide) (by decide), PlacedPath.tokens_text, tokens_valueText,
        sort.tokens_text, eq, and]
      simp [tokens]

/-- The tokens of a projection. -/
def projectionTokens : List PlacedPath → List Token
  | [] => []
  | first :: rest =>
    stepsTokens true first ++ rest.flatMap fun path => .mark ',' :: stepsTokens true path

/-- A projection is written as its paths with commas between them. -/
@[simp] theorem tokens_projectionText (paths : List PlacedPath) :
    tokens (projectionText paths) = projectionTokens paths := by
  have comma : tokens ", " = [.mark ','] := by decide
  cases paths with
  | nil => decide
  | cons first rest =>
      rw [projectionText, List.map_cons, tokens_intercalate (by decide) (by decide),
        PlacedPath.tokens_text, List.flatMap_map, comma]
      simp [projectionTokens]

/-! ### References -/

/-- The references to names in the steps of a path are the placeholders on it, in their order. -/
@[simp] theorem filterMap_nameRef?_stepsTokens (first : Bool) (path : PlacedPath) :
    (stepsTokens first path).filterMap Token.nameRef? =
      (pathNames path).map NamePlaceholder.text := by
  induction path generalizing first with
  | nil => rfl
  | cons step rest ih =>
      cases step <;> cases first <;>
        simp [stepsTokens, Step.tokens, Token.nameRef?, List.filterMap_cons, ih]

@[simp] theorem filterMap_valueRef?_stepsTokens (first : Bool) (path : PlacedPath) :
    (stepsTokens first path).filterMap Token.valueRef? = [] := by
  induction path generalizing first with
  | nil => rfl
  | cons step rest ih =>
      cases step <;> cases first <;>
        simp [stepsTokens, Step.tokens, Token.valueRef?, List.filterMap_cons, ih]

@[simp] theorem Subject.filterMap_nameRef?_tokens (subject : Subject NamePlaceholder) :
    subject.tokens.filterMap Token.nameRef? =
      (pathNames subject.path).map NamePlaceholder.text := by
  cases subject <;> simp [tokens, path, Token.nameRef?, List.filterMap_cons]

@[simp] theorem Subject.filterMap_valueRef?_tokens (subject : Subject NamePlaceholder) :
    subject.tokens.filterMap Token.valueRef? = [] := by
  cases subject <;> simp [tokens, Token.valueRef?, List.filterMap_cons]

namespace Clause

/-- The references to names in the text of a clause are the placeholders of its names. A name may be
referred to often, so that only membership is compared. -/
theorem mem_nameRefs_text {clause : PlacedClause} {key : String} :
    key ∈ nameRefs clause.text ↔ key ∈ clause.names.map NamePlaceholder.text := by
  rw [nameRefs, tokens_text]
  induction clause with
  | compare subject first rest =>
      simp [tokens, names, comparisonTokens, Token.nameRef?, List.filterMap_flatMap,
        List.filterMap_cons]
  | between path lower upper => simp [tokens, names, Token.nameRef?, List.filterMap_cons]
  | oneOf path first rest =>
      simp [tokens, names, Token.nameRef?, List.filterMap_flatMap, List.filterMap_cons]
  | call callee path argument =>
      cases argument <;> simp [tokens, names, Token.nameRef?, List.filterMap_cons]
  | negate clause ih => simpa [tokens, names, Token.nameRef?, List.filterMap_cons] using ih
  | join op left right ihl ihr =>
      simp only [tokens, names, List.filterMap_append, List.mem_append, List.map_append, ← ihl,
        ← ihr]
      simp [Token.nameRef?, List.filterMap_cons]

/-- The references to values in the text of a clause are the placeholders of its values, each of
them once and in the order in which they were given out. -/
theorem valueRefs_text (clause : PlacedClause) :
    valueRefs clause.text = clause.literals.map ValuePlaceholder.text := by
  rw [valueRefs, tokens_text]
  induction clause with
  | compare subject first rest =>
      simp only [tokens, literals, comparisonTokens, Token.valueRef?, List.filterMap_append,
        List.filterMap_flatMap, List.filterMap_cons, Subject.filterMap_valueRef?_tokens,
        List.filterMap_nil, List.nil_append, List.map_cons, List.map_map]
      exact congrArg _ List.map_eq_flatMap.symm
  | between path lower upper => simp [tokens, literals, Token.valueRef?, List.filterMap_cons]
  | oneOf path first rest =>
      simp only [tokens, literals, Token.valueRef?, List.filterMap_append, List.filterMap_flatMap,
        List.filterMap_cons, filterMap_valueRef?_stepsTokens, List.filterMap_nil, List.nil_append,
        List.append_nil, List.map_cons]
      exact congrArg _ List.map_eq_flatMap.symm
  | call callee path argument =>
      cases argument <;> simp [tokens, literals, Token.valueRef?, List.filterMap_cons]
  | negate clause ih => simpa [tokens, literals, Token.valueRef?, List.filterMap_cons] using ih
  | join op left right ihl ihr =>
      simp only [tokens, literals, List.filterMap_append, List.map_append, ← ihl, ← ihr]
      simp [Token.valueRef?, List.filterMap_cons]

end Clause

@[simp] theorem Operand.filterMap_nameRef?_tokens (o : Operand NamePlaceholder ValuePlaceholder) :
    o.tokens.filterMap Token.nameRef? = o.names.map NamePlaceholder.text := by
  cases o <;> simp [tokens, names, Token.nameRef?, List.filterMap_cons]

@[simp] theorem Operand.filterMap_valueRef?_tokens (o : Operand NamePlaceholder ValuePlaceholder) :
    o.tokens.filterMap Token.valueRef? = o.literals.map ValuePlaceholder.text := by
  cases o <;> simp [tokens, literals, Token.valueRef?, List.filterMap_cons]

/-- An operator has no references, neither to names nor to values. -/
theorem filterMap_tokens_arithmeticOp (op : ArithmeticOp) :
    (tokens op.text).filterMap Token.nameRef? = [] ∧
      (tokens op.text).filterMap Token.valueRef? = [] := by
  cases op <;> decide

@[simp] theorem AssignedValue.filterMap_nameRef?_tokens
    (v : AssignedValue NamePlaceholder ValuePlaceholder) :
    v.tokens.filterMap Token.nameRef? = v.names.map NamePlaceholder.text := by
  cases v <;> simp [tokens, names, filterMap_tokens_arithmeticOp]

@[simp] theorem AssignedValue.filterMap_valueRef?_tokens
    (v : AssignedValue NamePlaceholder ValuePlaceholder) :
    v.tokens.filterMap Token.valueRef? = v.literals.map ValuePlaceholder.text := by
  cases v <;> simp [tokens, literals, filterMap_tokens_arithmeticOp]

/-- A section has the references of its parts, as keywords and commas refer to nothing. -/
theorem filterMap_sectionTokens {ref? : Token → Option String} {k : Keyword}
    (keyword : ref? (.keyword k) = none) (comma : ref? (.mark ',') = none)
    (parts : List (List Token)) :
    (sectionTokens k parts).filterMap ref? = parts.flatMap (List.filterMap ref?) := by
  cases parts with
  | nil => rfl
  | cons first rest =>
      simp [sectionTokens, keyword, comma, List.filterMap_flatMap]

namespace UpdateClauses

/-- The references to names in the text of an update are the placeholders of its names, those of
both sections. -/
theorem mem_nameRefs_text {changes : List (Change NamePlaceholder ValuePlaceholder)}
    {key : String} :
    key ∈ nameRefs (ofChanges changes).text ↔
      key ∈ (changes.flatMap Change.names).map NamePlaceholder.text := by
  rw [nameRefs, tokens_text, tokens, List.filterMap_append, filterMap_sectionTokens rfl rfl,
    filterMap_sectionTokens rfl rfl, ofChanges]
  induction changes with
  | nil => rfl
  | cons change rest ih =>
      cases change with
      | set a =>
          simp only [List.filterMap_cons, Change.set?, Change.remove?, List.map_cons,
            List.flatMap_cons, List.append_assoc, List.map_append, List.mem_append]
          rw [← ih]
          simp [Assignment.tokens, Change.names, Token.nameRef?, List.filterMap_cons, or_assoc]
      | remove target =>
          simp only [List.filterMap_cons, Change.set?, Change.remove?, List.map_cons,
            List.flatMap_cons, List.map_append, List.mem_append]
          rw [← ih]
          simp [Change.names, or_left_comm]

/-- The references to values in the text of an update are the placeholders of its values. Removals
have none, so that the sections do not change their order. -/
theorem valueRefs_text (changes : List (Change NamePlaceholder ValuePlaceholder)) :
    valueRefs (ofChanges changes).text =
      (changes.flatMap Change.literals).map ValuePlaceholder.text := by
  rw [valueRefs, tokens_text, tokens, List.filterMap_append, filterMap_sectionTokens rfl rfl,
    filterMap_sectionTokens rfl rfl, ofChanges]
  induction changes with
  | nil => rfl
  | cons change rest ih =>
      cases change with
      | set a =>
          simp only [List.filterMap_cons, Change.set?, Change.remove?, List.map_cons,
            List.flatMap_cons, List.append_assoc, List.map_append]
          rw [ih]
          simp [Assignment.tokens, Change.literals, Token.valueRef?, List.filterMap_cons]
      | remove target =>
          simp only [List.filterMap_cons, Change.set?, Change.remove?, List.map_cons,
            List.flatMap_cons, List.map_append]
          rw [← ih]
          simp [Change.literals]

end UpdateClauses

namespace KeyClause

/-- The references to names in the text of a key condition are the placeholders of its names, of
which there are one or two. -/
theorem mem_nameRefs_text {clause : PlacedKeyClause} {key : String} :
    key ∈ nameRefs clause.text ↔ key ∈ clause.names.map NamePlaceholder.text := by
  obtain ⟨partitionKey, partition, sort⟩ := clause
  rw [nameRefs, tokens_text]
  cases sort with
  | none => simp [tokens, names, Token.nameRef?, List.filterMap_cons]
  | some sort =>
      have := @Clause.mem_nameRefs_text sort key
      rw [nameRefs, Clause.tokens_text] at this
      simp only [tokens, names, List.filterMap_append, List.map_append, List.mem_append,
        Option.elim_some, List.filterMap_cons, Token.nameRef?, this]
      simp

/-- The references to values in the text of a key condition are the placeholders of its values, that
of the partition first. -/
theorem valueRefs_text (clause : PlacedKeyClause) :
    valueRefs clause.text = clause.literals.map ValuePlaceholder.text := by
  obtain ⟨partitionKey, partition, sort⟩ := clause
  rw [valueRefs, tokens_text]
  cases sort with
  | none => simp [tokens, literals, Token.valueRef?, List.filterMap_cons]
  | some sort =>
      have := Clause.valueRefs_text sort
      rw [valueRefs, Clause.tokens_text] at this
      simp [tokens, literals, Token.valueRef?, List.filterMap_cons, this]

end KeyClause

/-- The references to names in the text of a projection are the placeholders of its paths, on
whatever step they stand. -/
theorem mem_nameRefs_projectionText {paths : List PlacedPath} {key : String} :
    key ∈ nameRefs (projectionText paths) ↔
      key ∈ (paths.flatMap pathNames).map NamePlaceholder.text := by
  rw [nameRefs, tokens_projectionText]
  cases paths <;>
    simp [projectionTokens, Token.nameRef?, List.filterMap_cons, List.filterMap_flatMap,
      List.map_flatMap]

/-- There are no references to values in the text of a projection. -/
theorem valueRefs_projectionText (paths : List PlacedPath) :
    valueRefs (projectionText paths) = [] := by
  rw [valueRefs, tokens_projectionText]
  cases paths <;>
    simp [projectionTokens, Token.valueRef?, List.filterMap_cons, List.filterMap_flatMap]

end DocumentTable
