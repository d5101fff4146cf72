import DocumentTable.Proofs.Renaming

/-!
# The sense of a text

What a text says are its tokens with names and values in the places of the references to them. It
says the same whatever the registry held before it was made, and whatever is given out later.

## Main definitions

* `Lexeme`: a token with what it refers to in its place
* `Registry.Denotes`: tokens whose references a registry resolves to given lexemes
* `Means`: the result of giving out placeholders denotes the same with every registry
* `Uniform`: a text of the same sense is made with every registry, or none in the same way

## Main results

* `RegistryStep.uniform`: every step does

## Design notes

A registry that grows resolves what it resolved before. So the parts of a text may be made one after
the other, and each of them denotes in the last registry what it denoted in its own.
-/

namespace DocumentTable

open Registry

/-! ### Lexemes -/

/-- A token with what it refers to in its place. -/
inductive Lexeme where
  | plain (token : Token)
  | name (name : String)
  | value (value : Json)

/-- Whether a token refers to nothing. -/
def Token.isPlain : Token → Bool
  | nameRef _ => false
  | valueRef _ => false
  | _ => true

/-- A list with another beginning in the place of its first element, if it has one. -/
def reopen {α : Type} (opening : List α) : List α → List α
  | [] => []
  | _ :: rest => opening ++ rest

namespace Registry

/-- The lexeme of a token, if it refers to nothing or to something that the registry holds. -/
def lexeme? (r : Registry) : Token → Option Lexeme
  | .nameRef key => (r.nameDict.get? key).map .name
  | .valueRef key => (r.value? key).map .value
  | token => some (.plain token)

/-- The registry resolves tokens to lexemes. -/
def Denotes (r : Registry) (l : List Token) (lexemes : List Lexeme) : Prop :=
  l.map r.lexeme? = lexemes.map some

variable {r : Registry} {l l' : List Token} {lexemes lexemes' : List Lexeme}

theorem denotes_nil (r : Registry) : r.Denotes [] [] := rfl

/-- Tokens one behind the other denote their lexemes one behind the other. -/
theorem Denotes.append (h : r.Denotes l lexemes) (h' : r.Denotes l' lexemes') :
    r.Denotes (l ++ l') (lexemes ++ lexemes') := by
  rw [Denotes, List.map_append, h, h', List.map_append]

/-- Tokens that refer to nothing denote themselves, whatever the registry is. -/
theorem denotes_plain (h : l.all Token.isPlain = true) (r : Registry) :
    r.Denotes l (l.map .plain) := by
  rw [Denotes, List.map_map]
  refine List.map_congr_left fun token mem => ?_
  have plain := List.all_eq_true.1 h token mem
  cases token with
  | nameRef key => cases plain
  | valueRef key => cases plain
  | _ => rfl

/-- Other tokens in the place of the first one, when the others refer to nothing. Sections begin
with their keyword in this way. -/
theorem Denotes.reopen (h : r.Denotes l lexemes) {opening : List Token}
    (plain : opening.all Token.isPlain = true) :
    r.Denotes (DocumentTable.reopen opening l)
      (DocumentTable.reopen (opening.map .plain) lexemes) := by
  cases l with
  | nil =>
      cases lexemes with
      | nil => exact denotes_nil r
      | cons _ _ => cases h
  | cons token l =>
      cases lexemes with
      | nil => cases h
      | cons lexeme lexemes => exact (denotes_plain plain r).append (List.cons.inj h).2

end Registry

/-! ### Computations whose results say the same -/

section Means

variable {α β γ : Type} {x : StateM Registry α} {y : StateM Registry β} {t : α → List Token}
  {u : β → List Token} {v : γ → List Token}

/-- A computation gives out placeholders and makes tokens that denote the same with every registry,
also after more was given out. -/
def Means (x : StateM Registry α) (t : α → List Token) : Prop :=
  ∃ lexemes, ∀ r : Registry, r.WellFormed →
    Grows r (x.run r).2 ∧ ∀ s, Grows (x.run r).2 s → s.Denotes (t (x.run r).1) lexemes

/-- Nothing is said. -/
theorem Means.nothing {a : α} (none : t a = []) : Means (pure a) t :=
  ⟨[], fun r _ => ⟨.refl r, fun _ _ => congrArg (List.map _) none⟩⟩

/-- What is made of a result says what the result does, when it has the same tokens. -/
theorem Means.map (h : Means x t) {k : α → γ} (hv : ∀ a, v (k a) = t a) :
    Means (do return k (← x)) v := by
  obtain ⟨lexemes, means⟩ := h
  refine ⟨lexemes, fun r wellFormed => ⟨(means r wellFormed).1, fun s later => ?_⟩⟩
  show s.Denotes (v (k (x.run r).1)) lexemes
  rw [hv]
  exact (means r wellFormed).2 s later

/-- What is said by two computations one after the other. The second one does not take away what the
first one says, since a registry only grows. -/
theorem Means.map₂ (h : Means x t) (h' : Means y u) {k : α → β → γ}
    (hv : ∀ a b, v (k a b) = t a ++ u b) : Means (do return k (← x) (← y)) v := by
  obtain ⟨lexemes, means⟩ := h
  obtain ⟨lexemes', means'⟩ := h'
  refine ⟨lexemes ++ lexemes', fun r wellFormed => ?_⟩
  obtain ⟨grows, denotes⟩ := means r wellFormed
  obtain ⟨grows', denotes'⟩ := means' _ (wellFormed.of_grows grows)
  refine ⟨grows.trans grows', fun s later => ?_⟩
  show s.Denotes (v (k (x.run r).1 (y.run (x.run r).2).1)) _
  rw [hv]
  -- what was said first is still said when the second one has given out its placeholders
  exact (denotes s (grows'.trans later)).append (denotes' s later)

/-- Two computations one after the other say what the first and then what the second does. -/
theorem Means.pair (h : Means x t) (h' : Means y u) :
    Means (do return (← x, ← y)) fun both => t both.1 ++ u both.2 :=
  h.map₂ h' fun _ _ => rfl

/-- Tokens around what is said, such as brackets. -/
theorem Means.between (h : Means x t) (before after : List Token)
    (plain : before.all Token.isPlain = true) (plain' : after.all Token.isPlain = true) :
    Means x fun a => before ++ t a ++ after := by
  obtain ⟨lexemes, means⟩ := h
  refine ⟨before.map .plain ++ lexemes ++ after.map .plain, fun r wellFormed => ?_⟩
  refine ⟨(means r wellFormed).1, fun s later => ?_⟩
  exact ((denotes_plain plain s).append ((means r wellFormed).2 s later)).append
    (denotes_plain plain' s)

/-- Tokens in front of what is said, such as a comma. -/
theorem Means.behind (h : Means x t) (before : List Token)
    (plain : before.all Token.isPlain = true) : Means x fun a => before ++ t a := by
  have := h.between before [] plain rfl
  simpa only [List.append_nil] using this

/-- The tokens may be described in another way. -/
theorem Means.congr {u : α → List Token} (h : Means x t) (same : ∀ a, u a = t a) : Means x u := by
  rwa [funext same]

/-- What is said need not be shown. The registry grows all the same. -/
theorem Means.silent (h : Means x t) : Means x fun _ => [] := by
  obtain ⟨_, means⟩ := h
  exact ⟨[], fun r wellFormed => ⟨(means r wellFormed).1, fun s _ => denotes_nil s⟩⟩

/-- Two things that are said by one computation, as a list of changes says its assignments and its
removals. -/
theorem Means.both {u : α → List Token} (h : Means x t) (h' : Means x u) :
    Means x fun a => t a ++ u a := by
  obtain ⟨lexemes, means⟩ := h
  obtain ⟨lexemes', means'⟩ := h'
  refine ⟨lexemes ++ lexemes', fun r wellFormed => ⟨(means r wellFormed).1, fun s later => ?_⟩⟩
  exact ((means r wellFormed).2 s later).append ((means' r wellFormed).2 s later)

/-- Other tokens in the place of the first one. -/
theorem Means.reopen (h : Means x t) (opening : List Token)
    (plain : opening.all Token.isPlain = true) :
    Means x fun a => DocumentTable.reopen opening (t a) := by
  obtain ⟨lexemes, means⟩ := h
  refine ⟨DocumentTable.reopen (opening.map .plain) lexemes, fun r wellFormed => ?_⟩
  exact ⟨(means r wellFormed).1, fun s later => ((means r wellFormed).2 s later).reopen plain⟩

end Means

/-! ### Names and values -/

/-- The placeholder of a name denotes the name. The invariant of registries is what makes this hold
for a name that was there before. -/
theorem means_placeName (n : String) : Means (placeName n) fun p => [.nameRef p.text] := by
  refine ⟨[.name n], fun r wellFormed => ⟨(placed_placeName n r).grows, fun s later => ?_⟩⟩
  have mem := later.names_prefix.subset
    ((placed_placeName n r).mem_names _ (List.mem_singleton_self _))
  have known := wellFormed.of_grows ((placed_placeName n r).grows.trans later)
  have name := known.get?_nameDict.2 ⟨_, rfl, mem⟩
  show [(s.nameDict.get? _).map Lexeme.name] = _
  rw [name]
  rfl

/-- The placeholder of a value denotes the value. It is new, so that it denotes nothing else. -/
theorem means_placeValue (value : Json) : Means (placeValue value) fun p => [.valueRef p.text] := by
  refine ⟨[.value value], fun r wellFormed => ?_⟩
  refine ⟨(placed_placeValue value r).grows, fun s later => ?_⟩
  have mem : (((placeValue value).run r).1, value) ∈ ((placeValue value).run r).2.values := by
    rw [(placed_placeValue value r).values_eq]
    simp
  have known := wellFormed.of_grows ((placed_placeValue value r).grows.trans later)
  have found := known.value?_eq_some.2 ⟨_, rfl, later.values_prefix.subset mem⟩
  show [(s.value? _).map Lexeme.value] = _
  rw [found]
  rfl

/-- The steps of a path denote its names and indexes, by induction on the path. -/
theorem means_placePath (first : Bool) (path : Path) :
    Means (placePath path) (stepsTokens first) := by
  induction path generalizing first with
  | nil => exact .nothing rfl
  | cons step rest ih =>
      cases step with
      | name n =>
          cases first with
          | true => exact (means_placeName n).map₂ (ih false) fun _ _ => rfl
          | false =>
              exact ((means_placeName n).behind [.mark '.'] rfl).map₂ (ih false)
                fun _ _ => rfl
      | index i =>
          exact ((ih false).behind
            [.mark '[', .numeral (Nat.toDigits 10 i.toNat), .mark ']'] rfl).map
            fun _ => rfl

/-- Candidates denote themselves, with a comma in front of each. -/
theorem means_placeValues (values : List Json) :
    Means (placeValues values) (List.flatMap fun p => [.mark ',', .valueRef p.text]) := by
  induction values with
  | nil => exact .nothing rfl
  | cons v rest ih =>
      exact ((means_placeValue v).behind [.mark ','] rfl).map₂ ih fun _ _ => rfl

/-- The paths of a projection denote themselves, with a comma in front of each. -/
theorem means_placePaths (paths : List Path) :
    Means (placePaths paths) (List.flatMap fun path => .mark ',' :: stepsTokens true path) := by
  induction paths with
  | nil => exact .nothing rfl
  | cons path rest ih =>
      exact ((means_placePath true path).behind [.mark ','] rfl).map₂ ih fun _ _ => rfl

/-! ### Conditions -/

/-- The subject of a test denotes its path, or the size of what is there. -/
theorem Subject.means_place (subject : Subject String) : Means subject.place Subject.tokens := by
  cases subject with
  | itself path => exact (means_placePath true path).map fun _ => rfl
  | size path =>
      exact ((means_placePath true path).between [.word sizeLetters, .mark '(']
        [.mark ')'] rfl rfl).map fun _ => rfl

/-- Comparisons of a subject that is already placed. Whatever it denotes, they repeat it, so that
the subject is a parameter here and not a part of what is placed. -/
theorem means_placeRest (comparisons : List (CompareOp × Json)) (subject : List Lexeme) :
    ∃ lexemes, ∀ r : Registry, r.WellFormed →
      Grows r ((Comparator.place.placeRest comparisons).run r).2 ∧
        ∀ s, Grows ((Comparator.place.placeRest comparisons).run r).2 s →
          ∀ placed : Subject NamePlaceholder, s.Denotes placed.tokens subject →
            s.Denotes (((Comparator.place.placeRest comparisons).run r).1.flatMap fun comparison =>
              .keyword .and :: Clause.comparisonTokens placed comparison) lexemes := by
  induction comparisons with
  | nil => exact ⟨[], fun r _ => ⟨.refl r, fun s _ _ _ => denotes_nil s⟩⟩
  | cons comparison rest ih =>
      obtain ⟨op, value⟩ := comparison
      obtain ⟨first, means⟩ := (means_placeValue value).behind [.comparison op] rfl
      obtain ⟨others, means'⟩ := ih
      refine ⟨.plain (.keyword .and) :: (subject ++ first) ++ others, fun r wellFormed => ?_⟩
      obtain ⟨grows, denotes⟩ := means r wellFormed
      obtain ⟨grows', denotes'⟩ := means' _ (wellFormed.of_grows grows)
      refine ⟨grows.trans grows', fun s later placed same => ?_⟩
      have keyword := denotes_plain (l := [.keyword .and]) rfl s
      have repeated := same.append (denotes s (grows'.trans later))
      exact (keyword.append repeated).append (denotes' s later placed same)

namespace Clause

/-- A clause denotes its tests with what they are about, by induction on the clause. -/
theorem means_place (clause : Clause String Json) : Means clause.place tokens := by
  induction clause with
  | compare subject first rest =>
      obtain ⟨op, value⟩ := first
      obtain ⟨lexemes, means⟩ := subject.means_place
      obtain ⟨first, means'⟩ := (means_placeValue value).behind [.comparison op] rfl
      obtain ⟨others, means''⟩ := means_placeRest rest lexemes
      refine ⟨lexemes ++ first ++ others, fun r wellFormed => ?_⟩
      obtain ⟨grows, denotes⟩ := means r wellFormed
      have wellFormed := wellFormed.of_grows grows
      obtain ⟨grows', denotes'⟩ := means' _ wellFormed
      obtain ⟨grows'', denotes''⟩ := means'' _ (wellFormed.of_grows grows')
      refine ⟨(grows.trans grows').trans grows'', fun s later => ?_⟩
      -- the subject is placed once, and still denotes the same where it is repeated
      have subject := denotes s ((grows'.trans grows'').trans later)
      exact (subject.append (denotes' s (grows''.trans later))).append
        (denotes'' s later _ subject)
  | between path lower upper =>
      have low := (means_placeValue lower).behind [.keyword .between] rfl
      have high := (means_placeValue upper).behind [.keyword .and] rfl
      exact (means_placePath true path).map₂ (low.pair high)
        (k := fun path bounds => between path bounds.1 bounds.2) fun _ _ => rfl
  | oneOf path first rest =>
      have first := (means_placeValue first).behind [.keyword .oneOf, .mark '('] rfl
      have closed := (first.pair (means_placeValues rest)).between [] [.mark ')'] rfl rfl
      exact (means_placePath true path).map₂ closed
        (k := fun path candidates => oneOf path candidates.1 candidates.2) fun _ _ => by
          simp [tokens]
  | call callee path argument =>
      have opened := (means_placePath true path).behind [.word callee.name.toList, .mark '('] rfl
      cases argument with
      | none =>
          exact (opened.between [] [.mark ')'] rfl rfl).map fun _ => by
            simp [tokens]
      | some value =>
          have argument := (means_placeValue value).between [.mark ','] [.mark ')'] rfl rfl
          exact opened.map₂ argument fun _ _ => by simp [tokens]
  | negate clause ih =>
      exact (ih.between [.keyword .not, .mark '('] [.mark ')'] rfl rfl).map
        fun _ => rfl
  | join op left right ihl ihr =>
      have left := ihl.between [.mark '('] [.mark ')', .keyword op.keyword, .mark '('] rfl rfl
      have right := ihr.between [] [.mark ')'] rfl rfl
      exact left.map₂ right fun _ _ => by simp [tokens]

end Clause

/-! ### Updates -/

theorem Operand.means_place (operand : Operand String Json) : Means operand.place tokens := by
  cases operand with
  | path p => exact (means_placePath true p).map fun _ => rfl
  | fallback p v =>
      have opened := (means_placePath true p).behind [.word "if_not_exists".toList, .mark '('] rfl
      have argument := (means_placeValue v).between [.mark ','] [.mark ')'] rfl rfl
      exact opened.map₂ argument fun _ _ => by simp [tokens]
  | value v => exact (means_placeValue v).map fun _ => rfl

/-- What is assigned denotes its operands, and the operator between them if there is one. -/
theorem AssignedValue.means_place (value : AssignedValue String Json) :
    Means value.place tokens := by
  cases value with
  | operand o => exact o.means_place.map fun _ => rfl
  | arithmetic left op right =>
      have plain : (DocumentTable.tokens op.text).all Token.isPlain = true := by
        cases op <;> decide
      have left := left.means_place.between [] (DocumentTable.tokens op.text)
        rfl plain
      exact left.map₂ right.means_place fun _ _ => by simp [tokens]

/-- An assignment denotes its target and what is assigned, the target first. -/
theorem Assignment.means_place (target : Path) (value : AssignedValue String Json) :
    Means (do return (⟨← placePath target, ← value.place⟩ : Assignment _ _)) tokens := by
  have target := (means_placePath true target).between [] [.comparison .eq] rfl rfl
  exact target.map₂ value.means_place fun _ _ => rfl

namespace Change

/-- The tokens of an assignment, behind a comma. -/
def setTokens (change : Change NamePlaceholder ValuePlaceholder) : List Token :=
  change.set?.elim [] fun assignment => .mark ',' :: assignment.tokens

/-- The tokens of a removal, behind a comma. -/
def removeTokens (change : Change NamePlaceholder ValuePlaceholder) : List Token :=
  change.remove?.elim [] fun target => .mark ',' :: stepsTokens true target

/-- A change says an assignment if it is one, and otherwise no assignment. -/
theorem means_place_set (change : Change String Json) : Means change.place setTokens := by
  cases change with
  | set a =>
      exact ((Assignment.means_place a.target a.value).behind [.mark ','] rfl).map
        (k := set) fun _ => rfl
  | remove target => exact (means_placePath true target).silent.map fun _ => rfl

/-- A change says a removal if it is one, and otherwise no removal. -/
theorem means_place_remove (change : Change String Json) : Means change.place removeTokens := by
  cases change with
  | set a => exact (Assignment.means_place a.target a.value).silent.map (k := set) fun _ => rfl
  | remove target =>
      exact ((means_placePath true target).behind [.mark ','] rfl).map fun _ => rfl

/-- Changes say what each of them says, in their order. -/
theorem means_placeAll {t : Change NamePlaceholder ValuePlaceholder → List Token}
    (h : ∀ change : Change String Json, Means change.place t)
    (changes : List (Change String Json)) :
    Means (placeAll changes) (List.flatMap t) := by
  induction changes with
  | nil => exact .nothing rfl
  | cons change rest ih => exact (h change).map₂ ih fun _ _ => rfl

end Change

/-- Parts with a comma before each of them, and the keyword in the place of the first comma. Written
in this way, a section is put together part by part. -/
theorem sectionTokens_eq_reopen {α : Type} (k : Keyword) (part? : α → Option (List Token))
    (l : List α) :
    sectionTokens k (l.filterMap part?) =
      reopen [.keyword k] (l.flatMap fun a => (part? a).elim [] (.mark ',' :: ·)) := by
  have parts : ∀ l : List α, (l.filterMap part?).flatMap (.mark ',' :: ·) =
      l.flatMap fun a => (part? a).elim [] (.mark ',' :: ·) := by
    intro l
    induction l with
    | nil => rfl
    | cons a l ih =>
        rw [List.filterMap_cons, List.flatMap_cons, ← ih]
        cases part? a <;> rfl
  rw [← parts]
  cases l.filterMap part? <;> rfl

namespace UpdateClauses

/-- The tokens of an update are those of its assignments and then those of its removals, in whatever
order the changes are mixed. -/
theorem tokens_ofChanges (changes : List (Change NamePlaceholder ValuePlaceholder)) :
    tokens (ofChanges changes) =
      reopen [.keyword .set] (changes.flatMap Change.setTokens) ++
        reopen [.keyword .remove] (changes.flatMap Change.removeTokens) := by
  rw [tokens, ofChanges, List.map_filterMap, List.map_filterMap, sectionTokens_eq_reopen,
    sectionTokens_eq_reopen]
  congr 3
  · funext change
    cases change <;> rfl
  · funext change
    cases change <;> rfl

/-- The changes of an update denote the two sections that they are sorted into. -/
theorem means_place (changes : List (Change String Json)) : Means (place changes) tokens := by
  have sets := (Change.means_placeAll Change.means_place_set changes).reopen [.keyword .set] rfl
  have removes := (Change.means_placeAll Change.means_place_remove changes).reopen
    [.keyword .remove] rfl
  exact (sets.both removes).map tokens_ofChanges

end UpdateClauses

/-! ### Key conditions and projections -/

/-- A key condition denotes the key attributes and the values that they are compared with. -/
theorem KeyClause.means_place (key : KeyClause String Json) : Means key.place tokens := by
  obtain ⟨partitionKey, partition, sort⟩ := key
  have value := (means_placeValue partition).behind [.comparison .eq] rfl
  have first := (means_placePath true partitionKey).pair value
  cases sort with
  | none =>
      exact first.map (k := fun first => KeyClause.mk first.1 first.2 none) fun _ => by
        simp [tokens]
  | some sort =>
      have sort := sort.means_place.behind [.keyword .and] rfl
      exact first.map₂ sort (k := fun first sort => KeyClause.mk first.1 first.2 (some sort))
        fun _ _ => by simp [tokens]

theorem means_projection (paths : List Path) : Means (placePaths paths) projectionTokens := by
  have reopened : ∀ paths : List PlacedPath, projectionTokens paths =
      reopen [] (paths.flatMap fun path => .mark ',' :: stepsTokens true path) := by
    intro paths
    cases paths <;> rfl
  exact ((means_placePaths paths).reopen [] rfl).congr reopened

/-! ### Every step -/

/-- With every registry, a computation fails with the same error, or makes a text of the same
sense. -/
def Uniform (x : Allocation String) : Prop :=
  (∃ cause, ∀ r, (x.run.run r).1 = .error cause) ∨
    ∃ lexemes, ∀ r : Registry, r.WellFormed → ∃ text,
      (x.run.run r).1 = .ok text ∧ (x.run.run r).2.Denotes (tokens text) lexemes

section Uniform

variable {α δ : Type} {x : Allocation α} {draft : Except ExpressionError δ}
  {place : δ → StateM Registry α} {t : α → List Token}

/-- The text of a compilation has the sense of its draft. A draft is made without the registry, so
whether it fails does not depend on it either. -/
theorem Follows.uniform (h : Follows x draft place) (means : ∀ d, Means (place d) t)
    {text : α → String} (cut : ∀ a, tokens (text a) = t a) : Uniform (do return text (← x)) := by
  cases draft with
  | error cause =>
      refine .inl ⟨cause, fun r => ?_⟩
      rw [run_bind_error (h r).1]
  | ok d =>
      obtain ⟨lexemes, means⟩ := means d
      refine .inr ⟨lexemes, fun r wellFormed => ⟨text ((place d).run r).1, ?_⟩⟩
      rw [run_bind_ok (h r), cut]
      exact ⟨rfl, (means r wellFormed).2 _ (.refl _)⟩

/-- Every step makes a text of the same sense with every registry, or fails in the same way. The
kinds of steps differ only in how their drafts are placed. -/
theorem RegistryStep.uniform (step : RegistryStep) : Uniform step.text := by
  cases step with
  | path p =>
      exact (follows_lift placePath p).uniform (means_placePath true) PlacedPath.tokens_text
  | value v => exact (follows_lift placeValue v).uniform means_placeValue tokens_valueText
  | condition c => exact c.follows_compile.uniform Clause.means_place Clause.tokens_text
  | update tree =>
      exact tree.follows_compile.uniform UpdateClauses.means_place UpdateClauses.tokens_text
  | keyCondition key =>
      exact key.follows_compile.uniform KeyClause.means_place KeyClause.tokens_text
  | projection paths =>
      exact (follows_lift placePaths paths).uniform means_projection tokens_projectionText

end Uniform

end DocumentTable
