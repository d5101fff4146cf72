import DocumentTable.Proofs.Grammar

/-!
# The grammar of update expressions

How the service reads the tokens of an update: sections of assignments and of removals, each behind
its keyword, in any number and any order.

## Main definitions

* `OperandRead`, `AssignedRead`, `AssignmentRead`: tokens that are an operand, what is assigned, an
  assignment
* `PartsRead`: tokens that are parts with commas between them
* `UpdateSection`, `SectionRead`, `UpdateRead`: the sections of an update
* `Delimited`: readings whose end is seen from the token that follows

## Main results

* `UpdateRead.unique`: tokens are one update at most

## Design notes

The comma between two assignments also stands inside a fallback, so a text is not split at its
commas. Instead each kind of reading ends where a token follows that does not continue it, and what
is read in sequence is split in one way since each of its members is.
-/

namespace DocumentTable

/-- The mark of an operator. -/
def ArithmeticOp.sign : ArithmeticOp → Char
  | plus => '+'
  | minus => '-'

/-- The letters of the function that falls back to a value. -/
def fallbackLetters : List Char :=
  "if_not_exists".toList

/-! ### The grammar -/

/-- Tokens that are an operand. -/
inductive OperandRead : List Token → Operand WrittenName String → Prop
  | path {ts : List Token} {p : List (Step WrittenName)} : PathRead ts p → OperandRead ts (.path p)
  | fallback {ts : List Token} {p : List (Step WrittenName)} (text : String) : PathRead ts p →
      OperandRead
        (.word fallbackLetters :: .mark '(' :: (ts ++ [.mark ',', .valueRef text, .mark ')']))
        (.fallback p text)
  | value (text : String) : OperandRead [.valueRef text] (.value text)

/-- Tokens that are what an attribute is set to. -/
inductive AssignedRead : List Token → AssignedValue WrittenName String → Prop
  | operand {ts : List Token} {o : Operand WrittenName String} : OperandRead ts o →
      AssignedRead ts (.operand o)
  | arithmetic {ts us : List Token} {left right : Operand WrittenName String} (op : ArithmeticOp) :
      OperandRead ts left → OperandRead us right →
        AssignedRead (ts ++ .mark op.sign :: us) (.arithmetic left op right)

/-- Tokens that are an assignment. -/
inductive AssignmentRead : List Token → Assignment WrittenName String → Prop
  | mk {ts us : List Token} {target : List (Step WrittenName)}
      {value : AssignedValue WrittenName String} : PathRead ts target → AssignedRead us value →
        AssignmentRead (ts ++ .comparison .eq :: us) ⟨target, value⟩

/-- Tokens that are parts with commas between them. -/
inductive PartsRead {α : Type} (PartRead : List Token → α → Prop) : List Token → List α → Prop
  | single {ts : List Token} {a : α} : PartRead ts a → PartsRead PartRead ts [a]
  | cons {ts us : List Token} {a : α} {rest : List α} : PartRead ts a →
      PartsRead PartRead us rest → PartsRead PartRead (ts ++ .mark ',' :: us) (a :: rest)

/-- A section of an update. -/
inductive UpdateSection (ν β : Type) where
  | set (assignments : List (Assignment ν β))
  | remove (targets : List (List (Step ν)))
  deriving DecidableEq

/-- Tokens that are a section of an update. -/
inductive SectionRead : List Token → UpdateSection WrittenName String → Prop
  | set {ts : List Token} {assignments : List (Assignment WrittenName String)} :
      PartsRead AssignmentRead ts assignments →
        SectionRead (.keyword .set :: ts) (.set assignments)
  | remove {ts : List Token} {targets : List (List (Step WrittenName))} :
      PartsRead PathRead ts targets → SectionRead (.keyword .remove :: ts) (.remove targets)

/-- Tokens that are an update. -/
inductive UpdateRead : List Token → List (UpdateSection WrittenName String) → Prop
  | nil : UpdateRead [] []
  | cons {ts us : List Token} {first : UpdateSection WrittenName String}
      {rest : List (UpdateSection WrittenName String)} : SectionRead ts first →
        UpdateRead us rest → UpdateRead (ts ++ us) (first :: rest)

/-! ### Readings that end where they are not continued -/

/-- Whether a text does not start with a token of a kind. -/
def StartsWithout (kind : Token → Bool) (ts : List Token) : Prop :=
  ∀ t ∈ ts.head?, kind t = false

theorem StartsWithout.nil (kind : Token → Bool) : StartsWithout kind [] := nofun

/-- What goes on is seen from the next token alone. -/
theorem startsWithout_cons {kind : Token → Bool} {t : Token} {ts : List Token} :
    StartsWithout kind (t :: ts) ↔ kind t = false := by
  simp [StartsWithout]

/-- What goes on with fewer tokens is ended by more of them. -/
theorem StartsWithout.mono {kind kind' : Token → Bool} (h : ∀ t, kind t = true → kind' t = true)
    {ts : List Token} (hts : StartsWithout kind' ts) : StartsWithout kind ts := by
  intro t ht
  by_contra continued
  have := h t (by simpa using continued)
  rw [hts t ht] at this
  cases this

/-- A reading whose end is seen from what follows: two texts that begin with such a reading, and do
not go on with a token that would continue it, agree on where it ends and on what is read. -/
def Delimited {α : Type} (continues : Token → Bool) (Read : List Token → α → Prop) : Prop :=
  ∀ ⦃ts ts' us us' : List Token⦄ ⦃a a' : α⦄, Read ts a → Read ts' a' →
    StartsWithout continues us → StartsWithout continues us' → ts ++ us = ts' ++ us' →
      ts = ts' ∧ a = a' ∧ us = us'

/-- Whether a token continues a path, or makes a call of the name before it. -/
def Token.continuesPath (t : Token) : Bool :=
  t = .mark '.' || t = .mark '[' || t = .mark '('

/-- Whether a token continues what is assigned. -/
def Token.continuesAssigned (t : Token) : Bool :=
  t.continuesPath || t = .mark '+' || t = .mark '-'

/-- Whether a token continues the parts of a section. -/
def Token.continuesParts (t : Token) : Bool :=
  t.continuesAssigned || t = .mark ','

/-- The steps of a path end where no step follows, in one place only. The induction is on the steps
of both readings. -/
theorem StepsRead.append_inj {ts ts' us us' : List Token} {p p' : List (Step WrittenName)}
    (h : StepsRead ts p) (h' : StepsRead ts' p') (hus : StartsWithout Token.continuesPath us)
    (hus' : StartsWithout Token.continuesPath us') (heq : ts ++ us = ts' ++ us') :
    ts = ts' ∧ us = us' := by
  induction h generalizing ts' p' with
  | nil =>
      -- a step on the other side would continue the path on this side
      cases h' with
      | nil => exact ⟨rfl, heq⟩
      | name _ _ =>
          rw [List.nil_append] at heq
          rw [heq] at hus
          cases startsWithout_cons.1 hus
      | index _ _ =>
          rw [List.nil_append] at heq
          rw [heq] at hus
          cases startsWithout_cons.1 hus
  | name _ _ ih =>
      cases h' with
      | nil =>
          rw [List.nil_append] at heq
          rw [← heq] at hus'
          cases startsWithout_cons.1 hus'
      | name _ rest' =>
          simp only [List.cons_append, List.cons.injEq, true_and] at heq
          obtain ⟨rfl, tail⟩ := heq
          obtain ⟨rfl, rfl⟩ := ih rest' tail
          exact ⟨rfl, rfl⟩
      | index _ _ => cases (List.cons.inj heq).1
  | index _ _ ih =>
      cases h' with
      | nil =>
          rw [List.nil_append] at heq
          rw [← heq] at hus'
          cases startsWithout_cons.1 hus'
      | name _ _ => cases (List.cons.inj heq).1
      | index _ rest' =>
          simp only [List.cons_append, List.cons.injEq, true_and] at heq
          obtain ⟨digits, tail⟩ := heq
          obtain ⟨rfl, rfl⟩ := ih rest' tail
          exact ⟨by rw [digits], rfl⟩

/-- A path ends where no step follows, so that it is split off in one way. -/
theorem PathRead.delimited : Delimited Token.continuesPath PathRead := by
  intro ts ts' us us' p p' h h' hus hus' heq
  cases h with
  | name first rest =>
      cases h' with
      | name first' rest' =>
          obtain ⟨rfl, tail⟩ := List.cons.inj heq
          obtain ⟨rfl, rfl⟩ := rest.append_inj rest' hus hus' tail
          exact ⟨rfl, by rw [first.unique first', rest.unique rest'], rfl⟩

/-- The name of a function alone is a path, but no path goes on with a parenthesis. A fallback is
thus told from a path. -/
theorem PathRead.append_ne_call {ts us vs : List Token} {p : List (Step WrittenName)}
    {letters : List Char} (h : PathRead ts p) (hus : StartsWithout Token.continuesPath us) :
    ts ++ us ≠ .word letters :: .mark '(' :: vs := by
  intro heq
  cases h with
  | name _ rest =>
      have tail := (List.cons.inj heq).2
      cases rest with
      | nil =>
          have call : us = .mark '(' :: vs := tail
          rw [call] at hus
          cases startsWithout_cons.1 hus
      | name _ _ => cases (List.cons.inj tail).1
      | index _ _ => cases (List.cons.inj tail).1

theorem PathRead.append_ne_valueRef {ts us vs : List Token} {p : List (Step WrittenName)}
    {text : String} (h : PathRead ts p) : ts ++ us ≠ .valueRef text :: vs := by
  intro heq
  cases h with
  | name first _ =>
      obtain ⟨rfl, -⟩ := List.cons.inj heq
      cases first

/-- An operand is split off in one way, whichever of the three kinds it is. -/
theorem OperandRead.delimited : Delimited Token.continuesPath OperandRead := by
  intro ts ts' us us' o o' h h' hus hus' heq
  cases h with
  | path h =>
      cases h' with
      | path h' =>
          obtain ⟨rfl, rfl, rfl⟩ := PathRead.delimited h h' hus hus' heq
          exact ⟨rfl, rfl, rfl⟩
      | fallback text _ => exact absurd heq (h.append_ne_call hus)
      | value text => exact absurd heq h.append_ne_valueRef
  | fallback text h =>
      cases h' with
      | path h' => exact absurd heq.symm (h'.append_ne_call hus')
      | fallback text' h' =>
          simp only [List.cons_append, List.append_assoc, List.cons.injEq, true_and] at heq
          -- the path inside ends at the comma, and nothing but the value stands behind it
          obtain ⟨rfl, rfl, tail⟩ := PathRead.delimited h h' (startsWithout_cons.2 rfl)
            (startsWithout_cons.2 rfl) heq
          simp only [List.cons.injEq, Token.valueRef.injEq, true_and, List.nil_append] at tail
          obtain ⟨rfl, rfl⟩ := tail
          exact ⟨rfl, rfl, rfl⟩
      | value text' => cases (List.cons.inj heq).1
  | value text =>
      cases h' with
      | path h' => exact absurd heq.symm h'.append_ne_valueRef
      | fallback text' _ => cases (List.cons.inj heq).1
      | value text' =>
          obtain ⟨same, rfl⟩ := List.cons.inj heq
          cases same
          exact ⟨rfl, rfl, rfl⟩

/-- What continues a path continues what is assigned, as that may end with a path. -/
theorem Token.continuesAssigned_of_continuesPath {t : Token} (h : t.continuesPath = true) :
    t.continuesAssigned = true := by
  simp [continuesAssigned, h]

/-- An operator does not continue a path, and so ends the left operand. -/
theorem ArithmeticOp.continuesPath_sign (op : ArithmeticOp) :
    (Token.mark op.sign).continuesPath = false := by
  cases op <;> rfl

/-- An operator continues what is assigned, and so an operand in front of it is not all. -/
theorem ArithmeticOp.continuesAssigned_sign (op : ArithmeticOp) :
    (Token.mark op.sign).continuesAssigned = true := by
  cases op <;> rfl

theorem ArithmeticOp.sign_injective : Function.Injective ArithmeticOp.sign := by
  intro op op' h
  cases op <;> cases op' <;> first | rfl | exact absurd h (by decide)

/-- What is assigned is split off in one way: with an operator behind its first operand it goes on,
and otherwise it ends there. -/
theorem AssignedRead.delimited : Delimited Token.continuesAssigned AssignedRead := by
  intro ts ts' us us' v v' h h' hus hus' heq
  have stop := hus.mono @Token.continuesAssigned_of_continuesPath
  have stop' := hus'.mono @Token.continuesAssigned_of_continuesPath
  cases h with
  | operand o =>
      cases h' with
      | operand o' =>
          obtain ⟨rfl, rfl, rfl⟩ := OperandRead.delimited o o' stop stop' heq
          exact ⟨rfl, rfl, rfl⟩
      | arithmetic op left _ =>
          rw [List.append_assoc, List.cons_append] at heq
          obtain ⟨-, -, rfl⟩ := OperandRead.delimited o left stop
            (startsWithout_cons.2 op.continuesPath_sign) heq
          -- an operator behind the operand would have been part of what is assigned
          have continued := startsWithout_cons.1 hus
          rw [op.continuesAssigned_sign] at continued
          cases continued
  | arithmetic op left right =>
      rw [List.append_assoc, List.cons_append] at heq
      cases h' with
      | operand o' =>
          obtain ⟨-, -, rfl⟩ := OperandRead.delimited left o'
            (startsWithout_cons.2 op.continuesPath_sign) stop' heq
          have continued := startsWithout_cons.1 hus'
          rw [op.continuesAssigned_sign] at continued
          cases continued
      | arithmetic op' left' right' =>
          rw [List.append_assoc, List.cons_append] at heq
          obtain ⟨rfl, rfl, tail⟩ := OperandRead.delimited left left'
            (startsWithout_cons.2 op.continuesPath_sign)
            (startsWithout_cons.2 op'.continuesPath_sign) heq
          obtain ⟨sign, rest⟩ := List.cons.inj tail
          obtain rfl := ArithmeticOp.sign_injective (Token.mark.inj sign)
          obtain ⟨rfl, rfl, rfl⟩ := OperandRead.delimited right right' stop stop' rest
          exact ⟨rfl, rfl, rfl⟩

/-- An assignment is split off in one way, at its equals sign and behind what is assigned. -/
theorem AssignmentRead.delimited : Delimited Token.continuesAssigned AssignmentRead := by
  intro ts ts' us us' a a' h h' hus hus' heq
  cases h with
  | mk target value =>
      cases h' with
      | mk target' value' =>
          rw [List.append_assoc, List.cons_append, List.append_assoc, List.cons_append] at heq
          obtain ⟨rfl, rfl, tail⟩ := PathRead.delimited target target'
            (startsWithout_cons.2 rfl) (startsWithout_cons.2 rfl) heq
          obtain ⟨rfl, rfl, rfl⟩ :=
            AssignedRead.delimited value value' hus hus' (List.cons.inj tail).2
          exact ⟨rfl, rfl, rfl⟩

/-- Parts with commas between them are told apart when each part is, as long as no part goes on with
a comma. The parts of a fallback have their comma between parentheses. -/
theorem PartsRead.delimited {α : Type} {continues : Token → Bool} {Read : List Token → α → Prop}
    (h : Delimited continues Read) (comma : continues (.mark ',') = false) :
    Delimited (fun t => continues t || t = .mark ',') (PartsRead Read) := by
  intro ts ts' us us' parts parts' read read' hus hus' heq
  have part {vs : List Token} (hvs : StartsWithout (fun t => continues t || t = .mark ',') vs) :
      StartsWithout continues vs :=
    hvs.mono fun t ht => by simp [ht]
  have stop (vs : List Token) : StartsWithout continues (.mark ',' :: vs) :=
    startsWithout_cons.2 comma
  have noComma (vs : List Token) :
      ¬StartsWithout (fun t => continues t || t = .mark ',') (.mark ',' :: vs) := by
    simp [startsWithout_cons]
  -- the shorter of two readings would be followed by a comma, which no end of parts is
  induction read generalizing ts' parts' with
  | single first =>
      cases read' with
      | single first' =>
          obtain ⟨rfl, rfl, rfl⟩ := h first first' (part hus) (part hus') heq
          exact ⟨rfl, rfl, rfl⟩
      | cons first' _ =>
          rw [List.append_assoc, List.cons_append] at heq
          obtain ⟨-, -, rfl⟩ := h first first' (part hus) (stop _) heq
          exact absurd hus (noComma _)
  | cons first _ ih =>
      rw [List.append_assoc, List.cons_append] at heq
      cases read' with
      | single first' =>
          obtain ⟨-, -, rfl⟩ := h first first' (stop _) (part hus') heq
          exact absurd hus' (noComma _)
      | cons first' rest' =>
          rw [List.append_assoc, List.cons_append] at heq
          obtain ⟨rfl, rfl, tail⟩ := h first first' (stop _) (stop _) heq
          obtain ⟨rfl, rfl, rfl⟩ := ih rest' (List.cons.inj tail).2
          exact ⟨rfl, rfl, rfl⟩

/-! ### Updates are read in one way -/

/-- A section is split off in one way, at its keyword and behind its last part. -/
theorem SectionRead.delimited : Delimited Token.continuesParts SectionRead := by
  intro ts ts' us us' s s' h h' hus hus' heq
  cases h with
  | set parts =>
      cases h' with
      | set parts' =>
          obtain ⟨rfl, rfl, rfl⟩ := PartsRead.delimited AssignmentRead.delimited rfl parts parts'
            hus hus' (List.cons.inj heq).2
          exact ⟨rfl, rfl, rfl⟩
      | remove _ => cases (List.cons.inj heq).1
  | remove parts =>
      have paths : ∀ t : Token, (t.continuesPath || t = .mark ',') = true →
          t.continuesParts = true := by
        intro t ht
        simp only [Bool.or_eq_true] at ht
        rcases ht with ht | ht <;> simp [Token.continuesParts, Token.continuesAssigned, ht]
      cases h' with
      | set _ => cases (List.cons.inj heq).1
      | remove parts' =>
          obtain ⟨rfl, rfl, rfl⟩ := PartsRead.delimited PathRead.delimited rfl parts parts'
            (hus.mono paths) (hus'.mono paths) (List.cons.inj heq).2
          exact ⟨rfl, rfl, rfl⟩

/-- A section starts with a keyword, so it is not empty and continues no other section. -/
theorem SectionRead.exists_keyword {ts : List Token} {s : UpdateSection WrittenName String}
    (h : SectionRead ts s) : ∃ k us, ts = .keyword k :: us := by
  cases h <;> exact ⟨_, _, rfl⟩

/-- An update starts with no token that a section goes on with. The section before it has ended
there. -/
theorem UpdateRead.startsWithout {ts : List Token} {u : List (UpdateSection WrittenName String)}
    (h : UpdateRead ts u) : StartsWithout Token.continuesParts ts := by
  cases h with
  | nil => exact .nil _
  | cons first _ =>
      obtain ⟨k, us, rfl⟩ := first.exists_keyword
      exact startsWithout_cons.2 rfl

/-- Tokens are one update at most, by induction on the sections. This is why a text can be said to
be the update that it is read as. -/
theorem UpdateRead.unique {ts : List Token} {u u' : List (UpdateSection WrittenName String)}
    (h : UpdateRead ts u) (h' : UpdateRead ts u') : u = u' := by
  induction h generalizing u' with
  | nil =>
      generalize heq : [] = ts at h'
      cases h' with
      | nil => rfl
      | cons first _ =>
          obtain ⟨k, us, rfl⟩ := first.exists_keyword
          cases heq
  | @cons ts us _ _ first rest ih =>
      generalize heq : ts ++ us = vs at h'
      cases h' with
      | nil =>
          obtain ⟨k, us, rfl⟩ := first.exists_keyword
          cases heq
      | cons first' rest' =>
          obtain ⟨rfl, rfl, rfl⟩ :=
            SectionRead.delimited first first' rest.startsWithout rest'.startsWithout heq
          rw [ih rest']

end DocumentTable
