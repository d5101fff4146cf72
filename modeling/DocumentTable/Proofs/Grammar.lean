import DocumentTable.Proofs.Formula
import DocumentTable.Proofs.Token

/-!
# The grammar of condition expressions

How the service reads the tokens of a condition expression.

## Main definitions

* `WrittenName`: how a name is written
* `PathRead`, `TermRead`, `TestRead`: tokens that are a path, an operand, a test
* `Precedence`: how strongly operators bind
* `Derives`: tokens that are a formula

## Main results

* `TestRead.unique`: tokens are one test at most
* `Derives.balanced`, `Derives.of_group`, `Derives.of_negated`, `Derives.of_groups`: parentheses
  match, and what stands between them is read on its own

## Design notes

The grammar does not say how operators of the same strength are grouped. It has the strengths as a
parameter, so that what holds for all of them does not depend on the choice of the service.
-/

namespace DocumentTable

/-- How a name is written in an expression. -/
inductive WrittenName where
  | ref (text : String)
  | word (letters : List Char)
  deriving DecidableEq

/-! ### Paths and operands -/

/-- A token that is a name. -/
inductive NameRead : Token → WrittenName → Prop
  | ref (text : String) : NameRead (.nameRef text) (.ref text)
  | word (letters : List Char) : NameRead (.word letters) (.word letters)

/-- Tokens that are steps behind others. -/
inductive StepsRead : List Token → List (Step WrittenName) → Prop
  | nil : StepsRead [] []
  | name {token : Token} {n : WrittenName} {ts : List Token} {steps : List (Step WrittenName)} :
      NameRead token n → StepsRead ts steps →
        StepsRead (.mark '.' :: token :: ts) (.name n :: steps)
  | index {digits : List Char} {i : UInt64} {ts : List Token} {steps : List (Step WrittenName)} :
      Path.readPosition digits = some i → StepsRead ts steps →
        StepsRead (.mark '[' :: .numeral digits :: .mark ']' :: ts) (.index i :: steps)

/-- Tokens that are a path. -/
inductive PathRead : List Token → List (Step WrittenName) → Prop
  | name {token : Token} {n : WrittenName} {ts : List Token} {steps : List (Step WrittenName)} :
      NameRead token n → StepsRead ts steps → PathRead (token :: ts) (.name n :: steps)

/-- Tokens that are an operand. -/
inductive TermRead : List Token → Term WrittenName String → Prop
  | path {ts : List Token} {p : List (Step WrittenName)} : PathRead ts p → TermRead ts (.path p)
  | size {ts : List Token} {p : List (Step WrittenName)} : PathRead ts p →
      TermRead (.word ['s', 'i', 'z', 'e'] :: .mark '(' :: (ts ++ [.mark ')'])) (.size p)
  | value (text : String) : TermRead [.valueRef text] (.value text)

/-- Tokens that are operands with commas between them. -/
inductive TermsRead : List Token → Term WrittenName String → List (Term WrittenName String) → Prop
  | single {ts : List Token} {first : Term WrittenName String} : TermRead ts first →
      TermsRead ts first []
  | cons {ts us : List Token} {first second : Term WrittenName String}
      {rest : List (Term WrittenName String)} : TermRead ts first → TermsRead us second rest →
        TermsRead (ts ++ .mark ',' :: us) first (second :: rest)

/-! ### Tests -/

/-- Whether a function has an argument beside its path. -/
def Callee.takesArgument : Callee → Bool
  | attributeExists => false
  | attributeNotExists => false
  | attributeType => true
  | beginsWith => true
  | contains => true

/-- Tokens that are a test. -/
inductive TestRead : List Token → Test WrittenName String → Prop
  | compare {ts us : List Token} {left right : Term WrittenName String} (op : CompareOp) :
      TermRead ts left → TermRead us right →
        TestRead (ts ++ .comparison op :: us) (.compare left op right)
  | between {ts us vs : List Token} {operand lower upper : Term WrittenName String} :
      TermRead ts operand → TermRead us lower → TermRead vs upper →
        TestRead (ts ++ .keyword .between :: (us ++ .keyword .and :: vs))
          (.between operand lower upper)
  | oneOf {ts us : List Token} {operand first : Term WrittenName String}
      {rest : List (Term WrittenName String)} : TermRead ts operand → TermsRead us first rest →
        TestRead (ts ++ .keyword .oneOf :: .mark '(' :: (us ++ [.mark ')']))
          (.oneOf operand first rest)
  | check {callee : Callee} {ts : List Token} {p : List (Step WrittenName)} :
      callee.takesArgument = false → PathRead ts p →
        TestRead (.word callee.name.toList :: .mark '(' :: (ts ++ [.mark ')']))
          (.call callee p none)
  | call {callee : Callee} {ts us : List Token} {p : List (Step WrittenName)}
      {argument : Term WrittenName String} : callee.takesArgument = true → PathRead ts p →
        TermRead us argument →
          TestRead
            (.word callee.name.toList :: .mark '(' :: (ts ++ .mark ',' :: (us ++ [.mark ')'])))
            (.call callee p (some argument))

/-! ### Formulas -/

/-- How strongly operators bind. -/
structure Precedence where
  and : Nat
  or : Nat
  not : Nat

/-- How strongly a combination binds. -/
def Precedence.ofOp (p : Precedence) : LogicalOp → Nat
  | .and => p.and
  | .or => p.or

/-- Tokens that are a formula, where operators bind at least as strongly as said. -/
inductive Derives (p : Precedence) :
    Nat → List Token → Formula WrittenName String → Prop
  | test {n : Nat} {ts : List Token} {t : Test WrittenName String} : TestRead ts t →
      Derives p n ts (.test t)
  | group {n : Nat} {ts : List Token} {f : Formula WrittenName String} : Derives p 0 ts f →
      Derives p n (.mark '(' :: (ts ++ [.mark ')'])) f
  | negate {n : Nat} {ts : List Token} {f : Formula WrittenName String} : n ≤ p.not →
      Derives p p.not ts f → Derives p n (.keyword .not :: ts) (.negate f)
  | join {n : Nat} {ts us : List Token} {f g : Formula WrittenName String} (op : LogicalOp) :
      n ≤ p.ofOp op → Derives p (p.ofOp op) ts f → Derives p (p.ofOp op) us g →
        Derives p n (ts ++ .keyword op.keyword :: us) (.join op f g)

/-! ### Operands are read in one way -/

theorem NameRead.unique {token : Token} {n n' : WrittenName} (h : NameRead token n)
    (h' : NameRead token n') : n = n' := by
  cases h <;> cases h' <;> rfl

/-- Tokens are read as the steps of one path at most, by induction on the steps. -/
theorem StepsRead.unique {ts : List Token} {p p' : List (Step WrittenName)} (h : StepsRead ts p)
    (h' : StepsRead ts p') : p = p' := by
  induction h generalizing p' with
  | nil =>
      cases h'
      rfl
  | name first _ ih =>
      cases h' with
      | name first' rest => rw [first.unique first', ih rest]
  | index position _ ih =>
      cases h' with
      | index position' rest =>
          rw [position] at position'
          rw [Option.some.inj position', ih rest]

/-- Tokens are read as one path at most. -/
theorem PathRead.unique {ts : List Token} {p p' : List (Step WrittenName)} (h : PathRead ts p)
    (h' : PathRead ts p') : p = p' := by
  cases h with
  | name first rest =>
      cases h' with
      | name first' rest' => rw [first.unique first', rest.unique rest']

/-- Tokens are one term at most. A path, a value and a size are told apart by their first token. -/
theorem TermRead.unique {ts : List Token} {t t' : Term WrittenName String} (h : TermRead ts t)
    (h' : TermRead ts t') : t = t' := by
  cases h with
  | path h =>
      cases h' with
      | path h' => rw [h.unique h']
      | size h' =>
          cases h with
          | name _ rest => cases rest
      | value text =>
          cases h with
          | name first _ => cases first
  | size h =>
      -- a size starts with a word, which starts no path and no value
      generalize heq : Token.word _ :: _ = ts at h'
      cases h' with
      | path h' =>
          cases h' with
          | name _ rest =>
              obtain ⟨-, rfl⟩ := List.cons.inj heq
              cases rest
      | size h' =>
          obtain ⟨-, heq⟩ := List.cons.inj heq
          obtain ⟨-, heq⟩ := List.cons.inj heq
          rw [List.append_cancel_right heq] at h
          rw [h.unique h']
      | value text => cases heq
  | value text =>
      cases h' with
      | path h' =>
          cases h' with
          | name first _ => cases first
      | value => rfl

/-! ### Tests are read in one way -/

/-- Whether a token does not occur in operands. -/
def Token.isDelimiter : Token → Bool
  | comparison _ => true
  | keyword _ => true
  | mark c => c = ','
  | _ => false

/-- The first token that does not occur in operands. -/
def delimiter? (ts : List Token) : Option Token :=
  ts.find? Token.isDelimiter

/-- In the steps of a path there are no delimiters of tests. -/
theorem StepsRead.isDelimiter_eq_false {ts : List Token} {p : List (Step WrittenName)}
    (h : StepsRead ts p) : ∀ t ∈ ts, t.isDelimiter = false := by
  induction h with
  | nil => exact fun _ h => nomatch h
  | name first _ ih =>
      cases first <;> simpa [Token.isDelimiter] using ih
  | index _ _ ih => simpa [Token.isDelimiter] using ih

theorem PathRead.isDelimiter_eq_false {ts : List Token} {p : List (Step WrittenName)}
    (h : PathRead ts p) : ∀ t ∈ ts, t.isDelimiter = false := by
  cases h with
  | name first rest =>
      have := rest.isDelimiter_eq_false
      cases first <;> simpa [Token.isDelimiter] using this

/-- In a term there are no delimiters of tests, so that the first delimiter of a test is behind its
first term. -/
theorem TermRead.isDelimiter_eq_false {ts : List Token} {t : Term WrittenName String}
    (h : TermRead ts t) : ∀ t ∈ ts, t.isDelimiter = false := by
  cases h with
  | path h => exact h.isDelimiter_eq_false
  | size h =>
      have := h.isDelimiter_eq_false
      simp only [List.forall_mem_cons, List.forall_mem_append]
      exact ⟨rfl, rfl, this, rfl, fun _ h => nomatch h⟩
  | value text => simp [Token.isDelimiter]

/-- The first delimiter splits a list in one way. What stands behind it may have further ones. -/
theorem append_delimiter_inj {ts ts' us us' : List Token} {d d' : Token}
    (hts : ∀ t ∈ ts, t.isDelimiter = false) (hts' : ∀ t ∈ ts', t.isDelimiter = false)
    (hd : d.isDelimiter = true) (hd' : d'.isDelimiter = true)
    (h : ts ++ d :: us = ts' ++ d' :: us') : ts = ts' ∧ d = d' ∧ us = us' := by
  induction ts generalizing ts' with
  | nil =>
      cases ts' with
      | nil => exact ⟨rfl, List.cons.inj h⟩
      | cons t ts' =>
          obtain ⟨rfl, -⟩ := List.cons.inj h
          rw [hts' _ List.mem_cons_self] at hd
          cases hd
  | cons t ts ih =>
      rw [List.forall_mem_cons] at hts
      cases ts' with
      | nil =>
          obtain ⟨rfl, -⟩ := List.cons.inj h
          rw [hts.1] at hd'
          cases hd'
      | cons t' ts' =>
          rw [List.forall_mem_cons] at hts'
          obtain ⟨rfl, tail⟩ := List.cons.inj h
          obtain ⟨rfl, rest⟩ := ih hts.2 hts'.2 tail
          exact ⟨rfl, rest⟩

/-- Behind tokens that are no delimiters the first delimiter is found. -/
theorem delimiter?_append {ts us : List Token} {d : Token}
    (hts : ∀ t ∈ ts, t.isDelimiter = false) (hd : d.isDelimiter = true) :
    delimiter? (ts ++ d :: us) = some d := by
  have none : ts.find? Token.isDelimiter = none := by
    simpa [List.find?_eq_none] using hts
  rw [delimiter?, List.find?_append, none, List.find?_cons_of_pos hd]
  rfl

/-- Where there are no delimiters none is found. -/
theorem delimiter?_eq_none {ts : List Token} (hts : ∀ t ∈ ts, t.isDelimiter = false) :
    delimiter? ts = none := by
  simpa [delimiter?, List.find?_eq_none] using hts

/-- Tokens are read as one list of terms at most, split at its commas. -/
theorem TermsRead.unique {ts : List Token} {first first' : Term WrittenName String}
    {rest rest' : List (Term WrittenName String)} (h : TermsRead ts first rest)
    (h' : TermsRead ts first' rest') : first = first' ∧ rest = rest' := by
  induction h generalizing first' rest' with
  | @single ts _ h =>
      generalize heq : ts = us at h'
      cases h' with
      | single h' =>
          subst heq
          exact ⟨h.unique h', rfl⟩
      | cons h' _ =>
          have none := delimiter?_eq_none h.isDelimiter_eq_false
          rw [heq, delimiter?_append h'.isDelimiter_eq_false rfl] at none
          cases none
  | cons h _ ih =>
      generalize heq : _ ++ _ :: _ = ts at h'
      cases h' with
      | single h' =>
          have none := delimiter?_eq_none h'.isDelimiter_eq_false
          rw [← heq, delimiter?_append h.isDelimiter_eq_false rfl] at none
          cases none
      | cons h' rest' =>
          obtain ⟨rfl, -, rfl⟩ :=
            append_delimiter_inj h.isDelimiter_eq_false h'.isDelimiter_eq_false rfl rfl heq
          obtain ⟨rfl, rfl⟩ := ih rest'
          exact ⟨h.unique h', rfl⟩

/-- The token that a test is told by: what stands behind its first operand or its path. -/
def Test.delimiter? : Test WrittenName String → Option Token
  | compare _ op _ => some (.comparison op)
  | between .. => some (.keyword .between)
  | oneOf .. => some (.keyword .oneOf)
  | call _ _ none => none
  | call _ _ (some _) => some (.mark ',')

/-- Which kind a test is of can be seen from the first delimiter in its tokens. -/
theorem TestRead.delimiter?_eq {ts : List Token} {t : Test WrittenName String}
    (h : TestRead ts t) : delimiter? ts = t.delimiter? := by
  cases h with
  | compare op h _ => exact delimiter?_append h.isDelimiter_eq_false rfl
  | between h _ _ => exact delimiter?_append h.isDelimiter_eq_false rfl
  | oneOf h _ => exact delimiter?_append h.isDelimiter_eq_false rfl
  | check _ h =>
      refine delimiter?_eq_none ?_
      simp only [List.forall_mem_cons, List.forall_mem_append]
      exact ⟨rfl, rfl, h.isDelimiter_eq_false, rfl, fun _ h => nomatch h⟩
  | call _ h _ =>
      -- the name of the function and its parenthesis are no delimiters either
      show delimiter? ((_ :: _ :: _) ++ _ :: _) = _
      refine delimiter?_append ?_ rfl
      simp only [List.forall_mem_cons]
      exact ⟨rfl, rfl, h.isDelimiter_eq_false⟩

theorem Callee.name_injective {callee callee' : Callee}
    (h : callee.name.toList = callee'.name.toList) : callee = callee' := by
  cases callee <;> cases callee' <;> first | rfl | exact absurd h (by decide)

/-- Tokens are one test at most. Tests of different kinds have different delimiters, and within a
kind the parts are split in one way. -/
theorem TestRead.unique {ts : List Token} {t t' : Test WrittenName String} (h : TestRead ts t)
    (h' : TestRead ts t') : t = t' := by
  -- both tests are told by the same token, which rules out all pairs of kinds but five
  have delimiter := h.delimiter?_eq.symm.trans h'.delimiter?_eq
  cases h with
  | compare op left right =>
      generalize heq : _ ++ _ :: _ = ts at h'
      cases h' with
      | compare op' left' right' =>
          obtain ⟨rfl, same, rfl⟩ := append_delimiter_inj left.isDelimiter_eq_false
            left'.isDelimiter_eq_false rfl rfl heq
          cases same
          rw [left.unique left', right.unique right']
      | _ => cases delimiter
  | between operand lower upper =>
      generalize heq : _ ++ _ :: _ = ts at h'
      cases h' with
      | between operand' lower' upper' =>
          obtain ⟨rfl, -, heq⟩ := append_delimiter_inj operand.isDelimiter_eq_false
            operand'.isDelimiter_eq_false rfl rfl heq
          obtain ⟨rfl, -, rfl⟩ := append_delimiter_inj lower.isDelimiter_eq_false
            lower'.isDelimiter_eq_false rfl rfl heq
          rw [operand.unique operand', lower.unique lower', upper.unique upper']
      | _ => cases delimiter
  | oneOf operand candidates =>
      generalize heq : _ ++ _ :: _ = ts at h'
      cases h' with
      | oneOf operand' candidates' =>
          obtain ⟨rfl, -, heq⟩ := append_delimiter_inj operand.isDelimiter_eq_false
            operand'.isDelimiter_eq_false rfl rfl heq
          rw [List.append_cancel_right (List.cons.inj heq).2] at candidates
          obtain ⟨rfl, rfl⟩ := candidates.unique candidates'
          rw [operand.unique operand']
      | _ => cases delimiter
  | check _ path =>
      generalize heq : _ :: _ = ts at h'
      cases h' with
      | check _ path' =>
          obtain ⟨name, heq⟩ := List.cons.inj heq
          rw [List.append_cancel_right (List.cons.inj heq).2] at path
          rw [Callee.name_injective (Token.word.inj name), path.unique path']
      | _ => cases delimiter
  | call _ path argument =>
      generalize heq : _ :: _ = ts at h'
      cases h' with
      | call _ path' argument' =>
          obtain ⟨name, heq⟩ := List.cons.inj heq
          obtain ⟨rfl, -, heq⟩ := append_delimiter_inj path.isDelimiter_eq_false
            path'.isDelimiter_eq_false rfl rfl (List.cons.inj heq).2
          rw [List.append_cancel_right heq] at argument
          rw [Callee.name_injective (Token.word.inj name), path.unique path',
            argument.unique argument']
      | _ => cases delimiter

/-! ### Parentheses match -/

/-- Whether a token is a parenthesis. -/
def Token.isParenthesis (t : Token) : Bool :=
  t = .mark '(' || t = .mark ')'

/-- Tokens in which every parenthesis has its counterpart. -/
inductive Balanced : List Token → Prop
  | nil : Balanced []
  | cons {t : Token} {ts : List Token} : t.isParenthesis = false → Balanced ts →
      Balanced (t :: ts)
  | group {ts us : List Token} : Balanced ts → Balanced us →
      Balanced (.mark '(' :: (ts ++ .mark ')' :: us))

/-- Balanced lists one behind the other are balanced. -/
theorem Balanced.append {ts us : List Token} (h : Balanced ts) (h' : Balanced us) :
    Balanced (ts ++ us) := by
  induction h with
  | nil => exact h'
  | cons plain _ ih => exact .cons plain ih
  | group inner _ _ ih =>
      rw [List.cons_append, List.append_assoc, List.cons_append]
      exact .group inner ih

/-- Tokens without parentheses are balanced. -/
theorem balanced_of_isParenthesis {ts : List Token} (h : ∀ t ∈ ts, t.isParenthesis = false) :
    Balanced ts := by
  induction ts with
  | nil => exact .nil
  | cons t ts ih =>
      rw [List.forall_mem_cons] at h
      exact .cons h.1 (ih h.2)

/-- The counterpart of a parenthesis is found in one way, since what stands before it is balanced in
both readings. -/
theorem Balanced.close_inj {ts ts' us us' : List Token} (h : Balanced ts) (h' : Balanced ts')
    (heq : ts ++ .mark ')' :: us = ts' ++ .mark ')' :: us') : ts = ts' ∧ us = us' := by
  -- by induction on one text; the other one starts with the same token and is of the same kind
  induction h generalizing ts' us us' with
  | nil =>
      cases h' with
      | nil => exact ⟨rfl, (List.cons.inj heq).2⟩
      | cons plain _ =>
          obtain ⟨rfl, -⟩ := List.cons.inj heq
          cases plain
      | group _ _ => cases (List.cons.inj heq).1
  | cons plain _ ih =>
      cases h' with
      | nil =>
          obtain ⟨rfl, -⟩ := List.cons.inj heq
          cases plain
      | cons _ rest =>
          obtain ⟨rfl, tail⟩ := List.cons.inj heq
          obtain ⟨rfl, rfl⟩ := ih rest tail
          exact ⟨rfl, rfl⟩
      | group _ _ =>
          obtain ⟨rfl, -⟩ := List.cons.inj heq
          cases plain
  | group _ _ ih ih' =>
      cases h' with
      | nil => cases (List.cons.inj heq).1
      | cons plain _ =>
          obtain ⟨rfl, -⟩ := List.cons.inj heq
          cases plain
      | group inner rest =>
          simp only [List.cons_append, List.append_assoc, List.cons.injEq, true_and] at heq
          obtain ⟨rfl, tail⟩ := ih inner heq
          obtain ⟨rfl, rfl⟩ := ih' rest tail
          exact ⟨rfl, rfl⟩

/-- What stands before an operator either is empty or holds the whole first group. An operator
inside the group would leave its parenthesis open. -/
theorem Balanced.split_group {ts us vs ws : List Token} {k : Keyword} (h : Balanced ts)
    (hus : Balanced us)
    (heq : ts ++ .keyword k :: vs = .mark '(' :: (us ++ .mark ')' :: ws)) :
    ∃ rest, ts = .mark '(' :: (us ++ .mark ')' :: rest) ∧ Balanced rest ∧
      rest ++ .keyword k :: vs = ws := by
  cases h with
  | nil => cases (List.cons.inj heq).1
  | cons plain _ =>
      obtain ⟨rfl, -⟩ := List.cons.inj heq
      cases plain
  | group inner rest =>
      simp only [List.cons_append, List.append_assoc, List.cons.injEq, true_and] at heq
      obtain ⟨rfl, tail⟩ := inner.close_inj hus heq
      exact ⟨_, rfl, rest, tail⟩

/-- In the steps of a path there are brackets but no parentheses. -/
theorem StepsRead.isParenthesis_eq_false {ts : List Token} {p : List (Step WrittenName)}
    (h : StepsRead ts p) : ∀ t ∈ ts, t.isParenthesis = false := by
  induction h with
  | nil => exact fun _ h => nomatch h
  | name first _ ih =>
      cases first <;> simpa [Token.isParenthesis] using ih
  | index _ _ ih => simpa [Token.isParenthesis] using ih

theorem PathRead.balanced {ts : List Token} {p : List (Step WrittenName)} (h : PathRead ts p) :
    Balanced ts := by
  cases h with
  | name first rest =>
      have := balanced_of_isParenthesis rest.isParenthesis_eq_false
      cases first
      · exact .cons rfl this
      · exact .cons rfl this

/-- A term is balanced: a size has two parentheses and the other terms have none. -/
theorem TermRead.balanced {ts : List Token} {t : Term WrittenName String} (h : TermRead ts t) :
    Balanced ts := by
  cases h with
  | path h => exact h.balanced
  | size h => exact .cons rfl (.group h.balanced .nil)
  | value text => exact .cons rfl .nil

theorem TermsRead.balanced {ts : List Token} {first : Term WrittenName String}
    {rest : List (Term WrittenName String)} (h : TermsRead ts first rest) : Balanced ts := by
  induction h with
  | single h => exact h.balanced
  | cons h _ ih => exact h.balanced.append (.cons rfl ih)

/-- A test is balanced. Its own parentheses are those of a function or of a list of candidates. -/
theorem TestRead.balanced {ts : List Token} {t : Test WrittenName String} (h : TestRead ts t) :
    Balanced ts := by
  cases h with
  | compare op left right => exact left.balanced.append (.cons rfl right.balanced)
  | between operand lower upper =>
      exact operand.balanced.append (.cons rfl (lower.balanced.append (.cons rfl upper.balanced)))
  | oneOf operand candidates =>
      exact operand.balanced.append (.cons rfl (.group candidates.balanced .nil))
  | check _ path => exact .cons rfl (.group path.balanced .nil)
  | @call _ ts us _ _ _ path argument =>
      -- the path and the argument stand in the same parentheses
      have inner : Balanced (ts ++ .mark ',' :: us) :=
        path.balanced.append (.cons rfl argument.balanced)
      have group := Balanced.group inner .nil
      rw [List.append_assoc, List.cons_append] at group
      exact .cons rfl group

section Derives

variable {p : Precedence} {n : Nat} {ts us vs : List Token} {f : Formula WrittenName String}

/-- In a formula every parenthesis has its counterpart, by induction on how it was read. -/
theorem Derives.balanced (h : Derives p n ts f) : Balanced ts := by
  induction h with
  | test h => exact h.balanced
  | group _ ih => exact .group ih .nil
  | negate _ _ ih => exact .cons rfl ih
  | join op _ _ _ ihl ihr => exact ihl.append (.cons rfl ihr)

/-- A test starts with a name, with a value or with the name of a function. A group or a negation is
therefore not read as a test. -/
theorem TestRead.exists_head {t : Test WrittenName String} (h : TestRead ts t) :
    ∃ first rest, ts = first :: rest ∧ first.isParenthesis = false ∧
      first ≠ .keyword .not := by
  have ofPath {ts : List Token} {p : List (Step WrittenName)} (h : PathRead ts p)
      (us : List Token) : ∃ first rest, ts ++ us = first :: rest ∧
        first.isParenthesis = false ∧ first ≠ .keyword .not := by
    cases h with
    | name first _ => cases first <;> exact ⟨_, _, rfl, rfl, nofun⟩
  have ofTerm {ts : List Token} {t : Term WrittenName String} (h : TermRead ts t)
      (us : List Token) : ∃ first rest, ts ++ us = first :: rest ∧
        first.isParenthesis = false ∧ first ≠ .keyword .not := by
    cases h with
    | path h => exact ofPath h us
    | size _ => exact ⟨_, _, rfl, rfl, nofun⟩
    | value text => exact ⟨_, _, rfl, rfl, nofun⟩
  cases h with
  | compare op h _ => exact ofTerm h _
  | between h _ _ => exact ofTerm h _
  | oneOf h _ => exact ofTerm h _
  | check _ _ => exact ⟨_, _, rfl, rfl, nofun⟩
  | call _ _ _ => exact ⟨_, _, rfl, rfl, nofun⟩

/-- A group is read as what stands in it. No operator can be taken out of it, whatever binds how
strongly. -/
theorem Derives.of_group (hts : Balanced ts)
    (h : Derives p n (.mark '(' :: (ts ++ [.mark ')'])) f) : Derives p 0 ts f := by
  generalize heq : Token.mark '(' :: _ = us at h
  cases h with
  | test h =>
      obtain ⟨first, rest, rfl, plain, -⟩ := h.exists_head
      obtain ⟨rfl, -⟩ := List.cons.inj heq
      cases plain
  | group h =>
      rw [List.append_cancel_right (List.cons.inj heq).2]
      exact h
  | negate _ _ => cases (List.cons.inj heq).1
  | join op _ left _ =>
      obtain ⟨rest, -, -, none⟩ := left.balanced.split_group hts heq.symm
      cases rest <;> cases none

/-- A negated group is read as the negation of what stands in it, and the negation does not go
beyond it. -/
theorem Derives.of_negated (hts : Balanced ts)
    (h : Derives p n (.keyword .not :: .mark '(' :: (ts ++ [.mark ')'])) f) :
    ∃ g, f = .negate g ∧ Derives p 0 ts g := by
  generalize heq : Token.keyword .not :: _ = us at h
  cases h with
  | test h =>
      obtain ⟨first, rest, rfl, -, positive⟩ := h.exists_head
      exact absurd (List.cons.inj heq).1.symm positive
  | group _ => cases (List.cons.inj heq).1
  | negate _ h =>
      obtain ⟨-, rfl⟩ := List.cons.inj heq
      exact ⟨_, rfl, h.of_group hts⟩
  | @join _ us _ _ _ op _ left _ =>
      cases us with
      | nil => cases op <;> cases (List.cons.inj heq).1
      | cons t us =>
          obtain ⟨rfl, tail⟩ := List.cons.inj heq
          cases left.balanced with
          | cons _ balanced =>
              obtain ⟨rest, -, -, none⟩ := balanced.split_group hts tail.symm
              cases rest <;> cases none

/-- Two groups with an operator between them are read as what stands in them. This is what the
parentheses around operands are for. -/
theorem Derives.of_groups {op : LogicalOp} (hts : Balanced ts) (hus : Balanced us)
    (h : Derives p n
      (.mark '(' :: (ts ++ .mark ')' :: .keyword op.keyword ::
        .mark '(' :: (us ++ [.mark ')']))) f) :
    ∃ g g', f = .join op g g' ∧ Derives p 0 ts g ∧ Derives p 0 us g' := by
  generalize heq : Token.mark '(' :: _ = vs at h
  cases h with
  | test h =>
      obtain ⟨first, rest, rfl, plain, -⟩ := h.exists_head
      obtain ⟨rfl, -⟩ := List.cons.inj heq
      cases plain
  | group h =>
      -- the first parenthesis is closed before the operator, not at the end
      obtain ⟨-, none⟩ := hts.close_inj h.balanced (List.cons.inj heq).2
      cases none
  | negate _ _ => cases (List.cons.inj heq).1
  | join op' _ left right =>
      -- the operator stands behind the first group, either at once or behind the second one too
      obtain ⟨rest, rfl, balanced, heq⟩ := left.balanced.split_group hts heq.symm
      cases rest with
      | nil =>
          obtain ⟨same, rfl⟩ := List.cons.inj heq
          obtain rfl : op' = op := by
            cases op <;> cases op' <;> first | rfl | cases same
          exact ⟨_, _, rfl, left.of_group hts, right.of_group hus⟩
      | cons t rest =>
          obtain ⟨rfl, tail⟩ := List.cons.inj heq
          cases balanced with
          | cons _ balanced =>
              obtain ⟨rest, -, -, none⟩ := balanced.split_group hus tail
              cases rest <;> cases none

end Derives

end DocumentTable
