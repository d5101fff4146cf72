import DocumentTable.Proofs.Sense

/-!
# Renumbering

A request may hold names and values of other expressions when one is compiled. Then its text has
other placeholders than it would have alone. Two such texts say the same, and one is the other with
its placeholders renumbered.

## Main definitions

* `Token.rename`: a token with another reference in the place of its own
* `Renumbers`: a text is another text with its references renumbered
* `SameSense`: two runs that fail in the same way or make texts that differ by their numbers only

## Main results

* `Registry.text_after`: whatever two registries have gone through, a step makes texts of the same
  sense with them, or fails with the same error

## Design notes

Names are renumbered by way of what they are: a registry has one placeholder for a name. Values may
be equal and have different placeholders, so they are renumbered by their places. A text refers to a
value once.
-/

namespace DocumentTable

open Registry

/-! ### Tokens that say the same -/

/-- A token with another reference in the place of its own. -/
def Token.rename (onNames onValues : String → String) : Token → Token
  | nameRef key => nameRef (onNames key)
  | valueRef key => valueRef (onValues key)
  | token => token

/-- Two tokens of one kind. If they refer to names, they refer to the same one. -/
inductive Registry.Counterparts (r r' : Registry) : Token → Token → Prop
  | plain {token : Token} : token.isPlain = true → Counterparts r r' token token
  | name {key key' n : String} : r.nameDict.get? key = some n → r'.nameDict.get? key' = some n →
      Counterparts r r' (.nameRef key) (.nameRef key')
  | value (key key' : String) : Counterparts r r' (.valueRef key) (.valueRef key')

section Counterparts

variable {r r' : Registry} {token token' : Token} {l l' : List Token}

/-- A token that is its own lexeme refers to nothing. -/
theorem eq_of_lexeme?_plain {plain : Token} (h : r.lexeme? token = some (.plain plain)) :
    token = plain ∧ plain.isPlain = true := by
  cases token with
  | nameRef key =>
      obtain ⟨_, _, same⟩ := Option.map_eq_some_iff.1 h
      cases same
  | valueRef key =>
      obtain ⟨_, _, same⟩ := Option.map_eq_some_iff.1 h
      cases same
  | _ =>
      cases h
      exact ⟨rfl, rfl⟩

/-- The lexeme of a name belongs to a reference to the name. -/
theorem eq_of_lexeme?_name {n : String} (h : r.lexeme? token = some (.name n)) :
    ∃ key, token = .nameRef key ∧ r.nameDict.get? key = some n := by
  cases token with
  | nameRef key =>
      obtain ⟨_, known, same⟩ := Option.map_eq_some_iff.1 h
      cases same
      exact ⟨key, rfl, known⟩
  | valueRef key =>
      obtain ⟨_, _, same⟩ := Option.map_eq_some_iff.1 h
      cases same
  | _ => cases h

/-- The lexeme of a value belongs to a reference to a value. -/
theorem eq_of_lexeme?_value {v : Json} (h : r.lexeme? token = some (.value v)) :
    ∃ key, token = .valueRef key := by
  cases token with
  | nameRef key =>
      obtain ⟨_, _, same⟩ := Option.map_eq_some_iff.1 h
      cases same
  | valueRef key => exact ⟨key, rfl⟩
  | _ => cases h

/-- Tokens of one lexeme, each for a registry of its own, are counterparts. -/
theorem counterparts_of_lexeme? {lexeme : Lexeme} (h : r.lexeme? token = some lexeme)
    (h' : r'.lexeme? token' = some lexeme) : Counterparts r r' token token' := by
  cases lexeme with
  | plain token =>
      obtain ⟨rfl, plain⟩ := eq_of_lexeme?_plain h
      obtain ⟨rfl, -⟩ := eq_of_lexeme?_plain h'
      exact .plain plain
  | name n =>
      obtain ⟨key, rfl, known⟩ := eq_of_lexeme?_name h
      obtain ⟨key', rfl, known'⟩ := eq_of_lexeme?_name h'
      exact .name known known'
  | value v =>
      obtain ⟨key, rfl⟩ := eq_of_lexeme?_value h
      obtain ⟨key', rfl⟩ := eq_of_lexeme?_value h'
      exact .value key key'

theorem counterparts_of_denotes {lexemes : List Lexeme} (h : r.Denotes l lexemes)
    (h' : r'.Denotes l' lexemes) : List.Forall₂ (Counterparts r r') l l' := by
  induction lexemes generalizing l l' with
  | nil =>
      obtain rfl := List.map_eq_nil_iff.1 h
      obtain rfl := List.map_eq_nil_iff.1 h'
      exact .nil
  | cons lexeme lexemes ih =>
      obtain ⟨token, l, rfl, first, rest⟩ := List.map_eq_cons_iff.1 h
      obtain ⟨token', l', rfl, first', rest'⟩ := List.map_eq_cons_iff.1 h'
      exact .cons (counterparts_of_lexeme? first first') (ih rest rest')

/-- Counterparts refer to as many values, since a reference to a value has one for its counterpart.
-/
theorem length_valueRefs (h : List.Forall₂ (Counterparts r r') l l') :
    (l.filterMap Token.valueRef?).length = (l'.filterMap Token.valueRef?).length := by
  induction h with
  | nil => rfl
  | @cons token token' l l' same _ ih =>
      cases same with
      | plain _ =>
          rw [List.filterMap_cons, List.filterMap_cons]
          cases token.valueRef? with
          | none => exact ih
          | some key => exact congrArg (· + 1) ih
      | name _ _ => exact ih
      | value _ _ => exact congrArg (· + 1) ih

/-- References of counterparts refer to a name that both registries have, under placeholders that
may differ. -/
theorem exists_of_mem_nameRefs (h : List.Forall₂ (Counterparts r r') l l') {key : String}
    (mem : key ∈ l.filterMap Token.nameRef?) :
    ∃ n key', r.nameDict.get? key = some n ∧ r'.nameDict.get? key' = some n := by
  induction h with
  | nil => cases mem
  | @cons token token' l l' same _ ih =>
      rw [List.filterMap_cons] at mem
      cases same with
      | plain plain =>
          cases token with
          | nameRef _ => cases plain
          | _ => exact ih mem
      | name known known' =>
          rcases List.mem_cons.1 mem with rfl | mem
          · exact ⟨_, _, known, known'⟩
          · exact ih mem
      | value _ _ => exact ih mem

/-- Counterparts are renamings of each other, if names are renamed to what stands for them and
values are renamed in their order. Names can be found by what they are; values cannot, as a value
may be given out often. -/
theorem eq_map_rename (h : List.Forall₂ (Counterparts r r') l l')
    {onNames onValues : String → String}
    (names : ∀ key key' n, r.nameDict.get? key = some n → r'.nameDict.get? key' = some n →
      onNames key = key')
    (values : (l.filterMap Token.valueRef?).map onValues = l'.filterMap Token.valueRef?) :
    l' = l.map (Token.rename onNames onValues) := by
  induction h with
  | nil => rfl
  | @cons token token' l l' same _ ih =>
      rw [List.map_cons]
      cases same with
      | plain plain =>
          cases token with
          | nameRef _ => cases plain
          | valueRef _ => cases plain
          | _ => exact congrArg _ (ih values)
      | name known known' =>
          rw [Token.rename, names _ _ _ known known']
          exact congrArg _ (ih values)
      | value key key' =>
          obtain ⟨first, rest⟩ := List.cons.inj values
          rw [Token.rename, first]
          exact congrArg _ (ih rest)

end Counterparts

/-! ### Renumbering -/

/-- A list without repetition is mapped to every list of its length. With a repetition the two
places might ask for different images. -/
theorem exists_map_eq_of_nodup {α : Type} [DecidableEq α] {l l' : List α} (nodup : l.Nodup)
    (length : l.length = l'.length) : ∃ f : α → α, l.map f = l' := by
  induction l generalizing l' with
  | nil => exact ⟨id, (List.length_eq_zero_iff.1 length.symm).symm⟩
  | cons a l ih =>
      cases l' with
      | nil => cases length
      | cons a' l' =>
          obtain ⟨fresh, nodup⟩ := List.nodup_cons.1 nodup
          obtain ⟨f, rest⟩ := ih nodup (Nat.succ.inj length)
          refine ⟨Function.update f a a', ?_⟩
          have others : l.map (Function.update f a a') = l.map f := by
            refine List.map_congr_left fun b mem => Function.update_of_ne ?_ _ _
            rintro rfl
            exact fresh mem
          rw [List.map_cons, Function.update_self, others, rest]

/-- A text is another text with its references renumbered. Different references stay different. -/
def Renumbers (text text' : String) : Prop :=
  ∃ onNames onValues : String → String,
    (∀ a ∈ nameRefs text, ∀ b ∈ nameRefs text, onNames a = onNames b → a = b) ∧
    (∀ a ∈ valueRefs text, ∀ b ∈ valueRefs text, onValues a = onValues b → a = b) ∧
    tokens text' = (tokens text).map (Token.rename onNames onValues)

/-- What stands for a name in one registry is renamed to what stands for it in the other. -/
def Registry.renameKey (r r' : Registry) (key : String) : String :=
  (((r.nameDict.get? key).bind r'.placeholder?).map NamePlaceholder.text).getD key

/-- The placeholder of a name in one registry is renamed to that of the name in the other one, which
has one placeholder for it. -/
theorem renameKey_eq {r r' : Registry} (h' : r'.Consistent) {key key' n : String}
    (known : r.nameDict.get? key = some n) (known' : r'.nameDict.get? key' = some n) :
    renameKey r r' key = key' := by
  obtain ⟨p, placeholder, rfl⟩ := h'.placeholder_of_name key' n known'
  rw [renameKey, known, Option.bind_some, placeholder]
  rfl

/-- Texts of the same sense that refer to each of their values once are renumbered. Both registries
have to be consistent, so that a placeholder is found again from what it stands for. -/
theorem renumbers_of_denotes {r r' : Registry} {text text' : String} {lexemes : List Lexeme}
    (consistent : r.Consistent) (consistent' : r'.Consistent)
    (h : r.Denotes (tokens text) lexemes) (h' : r'.Denotes (tokens text') lexemes)
    (once : (valueRefs text).Nodup) (once' : (valueRefs text').Nodup) : Renumbers text text' := by
  have counterparts := counterparts_of_denotes h h'
  obtain ⟨onValues, values⟩ := exists_map_eq_of_nodup once (length_valueRefs counterparts)
  refine ⟨renameKey r r', onValues, ?_, ?_,
    eq_map_rename counterparts (fun _ _ _ => renameKey_eq consistent') values⟩
  · intro a ha b hb same
    obtain ⟨n, a', known, known'⟩ := exists_of_mem_nameRefs counterparts ha
    obtain ⟨m, b', found, found'⟩ := exists_of_mem_nameRefs counterparts hb
    rw [renameKey_eq consistent' known known', renameKey_eq consistent' found found'] at same
    subst same
    -- one placeholder stands for both names, so they are one name and have one placeholder
    obtain rfl : n = m := Option.some.inj (known'.symm.trans found')
    obtain ⟨p, placeholder, rfl⟩ := consistent.placeholder_of_name a n known
    obtain ⟨q, placeholder', rfl⟩ := consistent.placeholder_of_name b n found
    rw [placeholder] at placeholder'
    cases placeholder'
    rfl
  · intro a ha b hb same
    have images : ((valueRefs text).map onValues).Nodup := values ▸ once'
    exact List.inj_on_of_nodup_map images ha hb same

/-! ### Two runs -/

/-- Two runs that fail with the same error, or make texts that denote the same with the registries
that they leave and differ by a renumbering. -/
def SameSense (run run' : Except ExpressionError String × Registry) : Prop :=
  match run.1, run'.1 with
  | .error cause, .error cause' => cause = cause'
  | .ok text, .ok text' =>
    (∃ lexemes, run.2.Denotes (tokens text) lexemes ∧ run'.2.Denotes (tokens text') lexemes) ∧
      Renumbers text text'
  | _, _ => False

/-- A text refers to each of its values once, since each occurrence was given a placeholder of its
own. -/
theorem RegistryStep.nodup_valueRefs {step : RegistryStep} {r : Registry} {text : String}
    (wellFormed : r.WellFormed) (ok : (step.text.run.run r).1 = .ok text) :
    (valueRefs text).Nodup := by
  obtain ⟨names, values, emits⟩ := RegistryStep.emits ok
  have all := (wellFormed.of_grows emits.placed.grows).nodup_valueTexts
  rw [emits.placed.values_eq, List.map_append, List.map_append, List.nodup_append] at all
  have refs := emits.valueRefs_eq
  rw [List.flatMap_singleton] at refs
  rw [refs]
  simpa [List.map_map, Function.comp_def] using all.2.1

namespace Registry

/-- A registry of a request in which nothing was given out is the empty one. Its counter says so
too, which is part of the invariant. -/
theorem after_eq_empty {steps : List RegistryStep} (h : (after steps).isEmpty = true) :
    after steps = empty := by
  have next := (wellFormed_after steps).consistent.next_eq
  generalize after steps = r at *
  obtain ⟨names, values, next⟩ := r
  rw [isEmpty, Bool.and_eq_true, List.isEmpty_iff, List.isEmpty_iff] at h
  obtain ⟨rfl, rfl⟩ := h
  exact congrArg (Registry.mk [] []) next

/-- Whatever was done with two registries before, a step fails with the same error with both, or
makes texts with both that say the same and differ by the numbers of their placeholders. With
registries that hold nothing it does the very same. The two lists are what the registries have gone
through, failed steps included, and nothing is asked of them: a step cannot tell what came before it
but for the numbers. That both registries hold nothing is a hypothesis of the last part only, where
the numbers have to agree as well. -/
theorem text_after (steps steps' : List RegistryStep) (step : RegistryStep) :
    SameSense (step.text.run.run (after steps)) (step.text.run.run (after steps')) ∧
      ((after steps).isEmpty = true → (after steps').isEmpty = true →
        step.text.run.run (after steps) = step.text.run.run (after steps')) := by
  constructor
  · have wellFormed := wellFormed_after steps
    have wellFormed' := wellFormed_after steps'
    rcases step.uniform with ⟨cause, fails⟩ | ⟨lexemes, succeeds⟩
    · rw [SameSense, fails, fails]
    · obtain ⟨text, ok, denotes⟩ := succeeds _ wellFormed
      obtain ⟨text', ok', denotes'⟩ := succeeds _ wellFormed'
      have left := (wellFormed.of_grows (grows_afterStep _ step)).consistent
      have left' := (wellFormed'.of_grows (grows_afterStep _ step)).consistent
      have renumbers := renumbers_of_denotes left left' denotes denotes'
        (RegistryStep.nodup_valueRefs wellFormed ok) (RegistryStep.nodup_valueRefs wellFormed' ok')
      rw [SameSense, ok, ok']
      exact ⟨⟨lexemes, denotes, denotes'⟩, renumbers⟩
  · intro nothing nothing'
    rw [after_eq_empty nothing, after_eq_empty nothing']

/-- A filter that shares a name with a key condition before it. Alone it has other numbers, and
these also when a condition has failed before it. -/
theorem text_after_keyCondition :
    ∃ before failed : List RegistryStep, ∃ filter : RegistryStep,
      (filter.text.run.run (after before)).1 = .ok "(#attr0 <> :val2) AND (#attr3 < :val4)" ∧
      (filter.text.run.run (after failed)).1 = .ok "(#attr0 <> :val1) AND (#attr2 < :val3)" ∧
      SameSense (filter.text.run.run (after before)) (filter.text.run.run (after failed)) ∧
      filter.text.run.run (after failed) = filter.text.run.run (after []) := by
  let filter : RegistryStep := .condition
    (.fields [("a", .compareWith .ne .null), ("b", .compareWith .lt (.bool true))])
  exact ⟨[.keyCondition ⟨"a", .null, none⟩], [.condition (.list [])], filter, rfl, rfl,
    (text_after _ _ filter).1, (text_after _ _ filter).2 rfl rfl⟩

end Registry

end DocumentTable
