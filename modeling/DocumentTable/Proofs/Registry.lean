import DocumentTable.Proofs.Dict
import DocumentTable.Proofs.Token
import Mathlib.Data.List.Range

/-!
# Registries

What giving out a placeholder does to a registry, and what holds of every registry that placeholders
are given out from.

## Main definitions

* `Registry.Grows`: a registry becomes another one by giving out placeholders
* `Registry.WellFormed`: the invariant of registries
* `Registry.Placed`: what a computation that makes an expression has done to a registry

## Main results

* `Registry.WellFormed.of_grows`: giving out placeholders keeps the invariant
* `Registry.Grows.names_prefix`, `Registry.Grows.values_prefix`: what was given out stays
* `Registry.WellFormed.get?_nameDict`, `Registry.WellFormed.get?_valueDict`: the dictionaries of a
  request say what each placeholder was given out for
-/

namespace DocumentTable

namespace Registry

/-! ### Growth -/

/-- A registry becomes another one by giving out placeholders. -/
inductive Grows : Registry → Registry → Prop
  | refl (r : Registry) : Grows r r
  | name {r s : Registry} (n : String) : Grows r s → Grows r ((placeName n).run s).2
  | value {r s : Registry} (v : Json) : Grows r s → Grows r ((placeValue v).run s).2

/-- Growth is closed under composition, so that what holds of one placeholder carries over to whole
compilations. -/
theorem Grows.trans {r s t : Registry} (h : Grows r s) (h' : Grows s t) : Grows r t := by
  induction h' with
  | refl => exact h
  | name n _ ih => exact .name n ih
  | value v _ ih => exact .value v ih

/-- The registry after its next placeholder was given out for a name. -/
def addName (r : Registry) (n : String) : Registry :=
  { r with names := r.names ++ [(⟨r.next⟩, n)], next := r.next + 1 }

/-- The registry after its next placeholder was given out for a value. -/
def addValue (r : Registry) (v : Json) : Registry :=
  { r with values := r.values ++ [(⟨r.next⟩, v)], next := r.next + 1 }

@[simp] theorem names_addName (r : Registry) (n : String) :
    (r.addName n).names = r.names ++ [(⟨r.next⟩, n)] := rfl

@[simp] theorem values_addName (r : Registry) (n : String) :
    (r.addName n).values = r.values := rfl

@[simp] theorem next_addName (r : Registry) (n : String) : (r.addName n).next = r.next + 1 := rfl

@[simp] theorem names_addValue (r : Registry) (v : Json) : (r.addValue v).names = r.names := rfl

@[simp] theorem values_addValue (r : Registry) (v : Json) :
    (r.addValue v).values = r.values ++ [(⟨r.next⟩, v)] := rfl

@[simp] theorem next_addValue (r : Registry) (v : Json) :
    (r.addValue v).next = r.next + 1 := rfl

/-- Placing a name either finds its placeholder or gives out the next one. All that is known about
the placement of names follows from these two cases. -/
theorem run_placeName (n : String) (r : Registry) :
    (∃ p, (p, n) ∈ r.names ∧ (placeName n).run r = (p, r)) ∨
      n ∉ r.names.map Prod.snd ∧ (placeName n).run r = (⟨r.next⟩, r.addName n) := by
  cases found : r.names.find? fun entry => entry.2 = n with
  | some entry =>
      obtain ⟨p, n'⟩ := entry
      -- the entry that is found is one of the name
      have hn : n' = n := by simpa using List.find?_some found
      subst hn
      refine .inl ⟨p, List.mem_of_find?_eq_some found, ?_⟩
      simp [placeName, placeholder?, found, StateT.run]
  | none =>
      refine .inr ⟨?_, ?_⟩
      · rw [List.find?_eq_none] at found
        rintro hmem
        obtain ⟨entry, hentry, rfl⟩ := List.mem_map.1 hmem
        simpa using found entry hentry
      · simp [placeName, placeholder?, found, StateT.run, addName]

/-- Names stay with their placeholders. New ones are appended, which is why a reference that was
written before stays valid. -/
theorem Grows.names_prefix {r s : Registry} (h : Grows r s) : r.names <+: s.names := by
  induction h with
  | refl => exact List.prefix_rfl
  | @name s n _ ih =>
      rcases run_placeName n s with ⟨p, -, run⟩ | ⟨-, run⟩
      · rwa [run]
      · rw [run]
        exact ih.trans (List.prefix_append _ _)
  | value v _ ih => exact ih

/-- Values stay with their placeholders, as names do; what is appended never covers an earlier
entry. -/
theorem Grows.values_prefix {r s : Registry} (h : Grows r s) : r.values <+: s.values := by
  induction h with
  | refl => exact List.prefix_rfl
  | @name s n _ ih =>
      rcases run_placeName n s with ⟨p, -, run⟩ | ⟨-, run⟩ <;> rwa [run]
  | value v _ ih => exact ih.trans (List.prefix_append _ _)

/-! ### The invariant -/

/-- The numbers of all placeholders that were given out, those of names first. -/
def numbers (r : Registry) : List Nat :=
  r.names.map (fun entry => entry.1.number) ++ r.values.map (fun entry => entry.1.number)

/-- The number of a new name stands between those of names and those of values, so that the numbers
agree up to their order only. -/
theorem numbers_addName (r : Registry) (n : String) :
    (r.addName n).numbers.Perm (r.next :: r.numbers) := by
  simp only [numbers, names_addName, values_addName, List.map_append, List.map_cons, List.map_nil,
    List.append_assoc]
  exact List.perm_middle

/-- The number of a new value comes last, because the numbers of values follow those of names. -/
theorem numbers_addValue (r : Registry) (v : Json) :
    (r.addValue v).numbers = r.numbers ++ [r.next] := by
  simp [numbers]

/-- The invariant of registries. -/
structure WellFormed (r : Registry) : Prop where
  /-- Each number before the next one is that of one placeholder. -/
  numbers_perm : r.numbers.Perm (List.range r.next)
  /-- A name has one placeholder. -/
  nodup_names : (r.names.map Prod.snd).Nodup
  /-- Placeholders of values are given out in the order of their numbers. -/
  pairwise_values : r.values.Pairwise fun a b => a.1.number < b.1.number

/-- The registry that a request starts with is well-formed: it has no numbers and no names. -/
theorem wellFormed_empty : WellFormed empty :=
  ⟨.refl _, List.nodup_nil, List.Pairwise.nil⟩

/-- A number that was given out comes before the next one. The number that is given out next is
therefore a new one. -/
theorem WellFormed.lt_next {r : Registry} (h : r.WellFormed) {k : Nat} (hk : k ∈ r.numbers) :
    k < r.next :=
  List.mem_range.1 (h.numbers_perm.mem_iff.1 hk)

/-- The invariant survives a new name. It has to be new, for a name that was there would get a
second placeholder. -/
theorem WellFormed.addName {r : Registry} (h : r.WellFormed) {n : String}
    (fresh : n ∉ r.names.map Prod.snd) : (r.addName n).WellFormed where
  numbers_perm := by
    rw [next_addName, List.range_succ]
    -- the number stands between those of names and those of values, and goes to the end
    exact (r.numbers_addName n).trans
      ((h.numbers_perm.cons _).trans (List.perm_append_singleton _ _).symm)
  nodup_names := by
    rw [names_addName, List.map_append, List.nodup_append]
    refine ⟨h.nodup_names, List.nodup_singleton _, ?_⟩
    rintro a ha b hb rfl
    rw [List.map_singleton, List.mem_singleton] at hb
    subst hb
    exact fresh ha
  pairwise_values := h.pairwise_values

/-- The invariant survives any value, also one that was there before: values get a placeholder for
each occurrence. -/
theorem WellFormed.addValue {r : Registry} (h : r.WellFormed) (v : Json) :
    (r.addValue v).WellFormed where
  numbers_perm := by
    rw [numbers_addValue, next_addValue, List.range_succ]
    exact h.numbers_perm.append_right _
  nodup_names := h.nodup_names
  pairwise_values := by
    refine List.pairwise_append.2 ⟨h.pairwise_values, List.pairwise_singleton _ _, ?_⟩
    intro entry hentry last hlast
    rw [List.mem_singleton] at hlast
    subst hlast
    exact h.lt_next (List.mem_append_right _ (List.mem_map_of_mem hentry))

/-- Giving out placeholders keeps the invariant. With the empty registry as the start, it holds of
every registry that a request meets. -/
theorem WellFormed.of_grows {r s : Registry} (h : r.WellFormed) (grows : Grows r s) :
    s.WellFormed := by
  induction grows with
  | refl => exact h
  | @name s n _ ih =>
      rcases run_placeName n s with ⟨p, -, run⟩ | ⟨fresh, run⟩
      · rwa [run]
      · rw [run]
        exact ih.addName fresh
  | value v _ ih => exact ih.addValue v

/-! ### What placeholders stand for -/

variable {r : Registry}

/-- Names and values draw on one supply of numbers, and no number is used twice. -/
theorem WellFormed.nodup_numbers (h : r.WellFormed) : r.numbers.Nodup :=
  h.numbers_perm.nodup_iff.2 List.nodup_range

/-- A placeholder of a name was given out once. Read as texts, the placeholders are the keys of the
dictionary that is sent. -/
theorem WellFormed.nodup_nameTexts (h : r.WellFormed) :
    ((r.names.map fun entry => (entry.1.text, entry.2)).map Prod.fst).Nodup := by
  have distinct : (r.names.map Prod.fst).Nodup := by
    refine List.Nodup.of_map NamePlaceholder.number ?_
    rw [List.map_map]
    exact (List.nodup_append.1 h.nodup_numbers).1
  simpa [List.map_map, Function.comp_def] using distinct.map NamePlaceholder.text_injective

/-- A placeholder of a value was given out once, and its text is a key of the dictionary that is
sent. -/
theorem WellFormed.nodup_valueTexts (h : r.WellFormed) :
    ((r.values.map fun entry => (entry.1.text, entry.2)).map Prod.fst).Nodup := by
  have distinct : (r.values.map Prod.fst).Nodup := by
    refine List.Nodup.of_map ValuePlaceholder.number ?_
    rw [List.map_map]
    exact (List.nodup_append.1 h.nodup_numbers).2.1
  simpa [List.map_map, Function.comp_def] using distinct.map ValuePlaceholder.text_injective

/-- The names of a request say what each placeholder was given out for. The invariant is what
excludes a second entry under the same key. -/
theorem WellFormed.get?_nameDict (h : r.WellFormed) {key n : String} :
    r.nameDict.get? key = some n ↔ ∃ p : NamePlaceholder, p.text = key ∧ (p, n) ∈ r.names := by
  rw [nameDict, Dict.get?_ofList h.nodup_nameTexts, List.mem_map]
  constructor
  · rintro ⟨⟨p, n'⟩, hmem, heq⟩
    cases heq
    exact ⟨p, rfl, hmem⟩
  · rintro ⟨p, rfl, hmem⟩
    exact ⟨_, hmem, rfl⟩

/-- The values of a request say what each placeholder was given out for, by the same argument as for
names. -/
theorem WellFormed.get?_valueDict (h : r.WellFormed) {key : String} {v : Json} :
    r.valueDict.get? key = some v ↔ ∃ p : ValuePlaceholder, p.text = key ∧ (p, v) ∈ r.values := by
  rw [valueDict, Dict.get?_ofList h.nodup_valueTexts, List.mem_map]
  constructor
  · rintro ⟨⟨p, v'⟩, hmem, heq⟩
    cases heq
    exact ⟨p, rfl, hmem⟩
  · rintro ⟨p, rfl, hmem⟩
    exact ⟨_, hmem, rfl⟩

/-- The placeholder of a name is the one that was given out for it. Here the invariant says that a
search cannot stop at another entry. -/
theorem WellFormed.placeholder?_eq_some (h : r.WellFormed) {n : String} {p : NamePlaceholder} :
    r.placeholder? n = some p ↔ (p, n) ∈ r.names := by
  rw [placeholder?, Option.map_eq_some_iff]
  constructor
  · rintro ⟨⟨q, n'⟩, found, rfl⟩
    have hn : n' = n := by simpa using List.find?_some found
    exact hn ▸ List.mem_of_find?_eq_some found
  · intro hmem
    have some : (r.names.find? fun entry => entry.2 = n).isSome := by
      rw [List.find?_isSome]
      exact ⟨_, hmem, by simp⟩
    obtain ⟨⟨q, n'⟩, found⟩ := Option.isSome_iff_exists.1 some
    have hn : n' = n := by simpa using List.find?_some found
    -- two entries of one name are the same entry
    have same := List.inj_on_of_nodup_map h.nodup_names (List.mem_of_find?_eq_some found) hmem hn
    exact ⟨_, found, congrArg Prod.fst same⟩

/-- The value behind a text is what its placeholder was given out for, whether the search or the
dictionary is asked. -/
theorem WellFormed.value?_eq_some (h : r.WellFormed) {key : String} {v : Json} :
    r.value? key = some v ↔ ∃ p : ValuePlaceholder, p.text = key ∧ (p, v) ∈ r.values := by
  rw [value?, Option.map_eq_some_iff]
  constructor
  · rintro ⟨⟨p, v'⟩, found, rfl⟩
    exact ⟨p, by simpa using List.find?_some found, List.mem_of_find?_eq_some found⟩
  · rintro ⟨p, rfl, hmem⟩
    have some : (r.values.find? fun entry => entry.1.text = p.text).isSome := by
      rw [List.find?_isSome]
      exact ⟨_, hmem, by simp⟩
    obtain ⟨entry, found⟩ := Option.isSome_iff_exists.1 some
    have htext : entry.1.text = p.text := by simpa using List.find?_some found
    have distinct : (r.values.map fun entry => entry.1.text).Nodup := by
      simpa [List.map_map, Function.comp_def] using h.nodup_valueTexts
    -- the search stops at the first entry with the text, and there is no other
    have same :=
      List.inj_on_of_nodup_map distinct (List.mem_of_find?_eq_some found) hmem htext
    exact ⟨_, found, congrArg Prod.snd same⟩

/-! ### Placement -/

/-- What a computation that makes an expression has done to a registry. The entries are those of the
names and the values that occur in the expression. -/
structure Placed (r s : Registry) (names : List (NamePlaceholder × String))
    (values : List (ValuePlaceholder × Json)) : Prop where
  grows : Grows r s
  /-- What stands for a name was given out for it. -/
  mem_names : ∀ entry ∈ names, entry ∈ s.names
  /-- Nothing was given out for a name that does not occur. -/
  of_mem_names : ∀ entry ∈ s.names, entry ∈ r.names ∨ entry ∈ names
  /-- Each value was given one placeholder, in the order of their occurrence. -/
  values_eq : s.values = r.values ++ values

/-- An expression without names and values leaves the registry as it is. -/
theorem Placed.refl (r : Registry) : Placed r r [] [] :=
  ⟨.refl r, by simp, fun _ h => .inl h, (List.append_nil _).symm⟩

/-- What two computations in a row have placed is what the first one and then the second one has.
The names of the first are still there after the second. -/
theorem Placed.trans {r s t : Registry} {names names' : List (NamePlaceholder × String)}
    {values values' : List (ValuePlaceholder × Json)} (h : Placed r s names values)
    (h' : Placed s t names' values') : Placed r t (names ++ names') (values ++ values') where
  grows := h.grows.trans h'.grows
  mem_names := by
    intro entry hentry
    rcases List.mem_append.1 hentry with hentry | hentry
    · exact h'.grows.names_prefix.subset (h.mem_names entry hentry)
    · exact h'.mem_names entry hentry
  of_mem_names := by
    intro entry hentry
    rcases h'.of_mem_names entry hentry with hentry | hentry
    · exact (h.of_mem_names entry hentry).imp_right (List.mem_append_left _)
    · exact .inr (List.mem_append_right _ hentry)
  values_eq := by rw [h'.values_eq, h.values_eq, List.append_assoc]

/-- Values may follow without a name, as the candidates of a membership test do. -/
theorem Placed.trans_values {r s t : Registry} {names : List (NamePlaceholder × String)}
    {values values' : List (ValuePlaceholder × Json)} (h : Placed r s names values)
    (h' : Placed s t [] values') : Placed r t names (values ++ values') := by
  have := h.trans h'
  rwa [List.append_nil] at this

/-- Placing a name accounts for one entry, be it an old one or a new one. -/
theorem placed_placeName (n : String) (r : Registry) :
    Placed r ((placeName n).run r).2 [(((placeName n).run r).1, n)] [] := by
  rcases run_placeName n r with ⟨p, hmem, run⟩ | ⟨fresh, run⟩
  · have grows := Grows.name n (.refl r)
    rw [run] at grows ⊢
    exact ⟨grows, by simpa using hmem, fun _ h => .inl h, (List.append_nil _).symm⟩
  · have grows := Grows.name n (.refl r)
    rw [run] at grows ⊢
    exact ⟨grows, by simp, by simp, (List.append_nil _).symm⟩

/-- Placing a value accounts for one entry, which is always a new one. -/
theorem placed_placeValue (v : Json) (r : Registry) :
    Placed r ((placeValue v).run r).2 [] [(((placeValue v).run r).1, v)] :=
  ⟨.value v (.refl r), by simp, fun _ h => .inl h, rfl⟩

end Registry

end DocumentTable
