import DocumentTable.Dict
import DocumentTable.Proofs.Except
import Mathlib.Data.List.Nodup
import Mathlib.Data.String.Basic

/-!
# Dictionaries of lists of entries

## Main results

* `Dict.mem_keys_ofList`: a dictionary has the names of its entries
* `Dict.ofList_perm`, `Dict.get?_ofList`: entries with different names are all kept
* `Dict.sorted_ofList`, `Dict.Sorted.nodup_keys`: a dictionary has each name once
* `Dict.Sorted.ofList_eq`: a dictionary is that of its entries in any order
* `Dict.ofList_mapValues`: a function of the values may be applied before or after
* `Dict.insert_comm`: two names are set in any order
* `Dict.get?_insert`, `Dict.get?_ofList_of_forall`: what is found in a dictionary that was made
* `Dict.exists_mapValuesM_iff`, `Dict.get?_mapValuesM`, `Dict.mapValuesM_zip`: a function of the
  values that may fail
-/

namespace DocumentTable.Dict

variable {α β : Type}

@[simp] theorem keys_nil : keys ([] : Dict α) = [] := rfl

@[simp] theorem keys_cons (k : String) (v : α) (rest : Dict α) :
    keys ((k, v) :: rest) = k :: keys rest := rfl

/-! ### Insertion -/

/-- Insertion adds its name, and takes none away. -/
theorem mem_keys_insert {k key : String} {value : α} {d : Dict α} :
    k ∈ keys (insert key value d) ↔ k = key ∨ k ∈ keys d := by
  induction d with
  | nil => simp [insert]
  | cons entry rest ih =>
      obtain ⟨k', v⟩ := entry
      by_cases hlt : key < k'
      · simp [insert, hlt]
      · by_cases heq : key = k'
        · simp [insert, heq]
        · simp only [insert, if_neg hlt, if_neg heq, keys_cons, List.mem_cons, ih]
          tauto

/-- A new name is one more entry. Where it is put depends on the order of the names, so that this
holds up to order. -/
theorem insert_perm {key : String} {value : α} {d : Dict α} (h : key ∉ keys d) :
    (insert key value d).Perm ((key, value) :: d) := by
  induction d with
  | nil => exact .refl _
  | cons entry rest ih =>
      obtain ⟨k', v⟩ := entry
      rw [keys_cons, List.mem_cons, not_or] at h
      by_cases hlt : key < k'
      · rw [insert, if_pos hlt]
      · rw [insert, if_neg hlt, if_neg h.1]
        -- the first entry stays where it is, and the new one passes it
        exact ((ih h.2).cons _).trans (.swap _ _ _)

theorem mem_of_mem_insert {key : String} {value : α} {d : Dict α} {entry : String × α}
    (h : entry ∈ insert key value d) : entry = (key, value) ∨ entry ∈ d := by
  induction d with
  | nil => exact .inl (List.mem_singleton.1 h)
  | cons first rest ih =>
      obtain ⟨k, v⟩ := first
      rw [insert] at h
      split at h
      · exact List.mem_cons.1 h
      · split at h
        · exact (List.mem_cons.1 h).imp_right (List.mem_cons_of_mem _)
        · rcases List.mem_cons.1 h with rfl | h
          · exact .inr List.mem_cons_self
          · exact (ih h).imp_right (List.mem_cons_of_mem _)

/-- Insertion keeps the order of the names, whether the name is new or not. -/
theorem Sorted.insert {d : Dict α} (h : d.Sorted) (key : String) (value : α) :
    (Dict.insert key value d).Sorted := by
  induction d with
  | nil => exact List.pairwise_singleton _ _
  | cons first rest ih =>
      obtain ⟨k, v⟩ := first
      obtain ⟨before, sorted⟩ := List.pairwise_cons.1 h
      rw [Dict.insert]
      split
      · next lt =>
          refine List.pairwise_cons.2 ⟨?_, h⟩
          rw [List.forall_mem_cons]
          exact ⟨lt, fun entry mem => lt_trans lt (before entry mem)⟩
      · next notLt =>
          split
          · next same =>
              subst same
              exact List.pairwise_cons.2 ⟨before, sorted⟩
          · next other =>
              have after : k < key := lt_of_le_of_ne (not_lt.1 notLt) (Ne.symm other)
              refine List.pairwise_cons.2 ⟨?_, ih sorted⟩
              intro entry mem
              rcases mem_of_mem_insert mem with rfl | mem
              · exact after
              · exact before entry mem

/-- The later of two values of a name counts, and nothing is left of the earlier one. -/
theorem insert_insert_self (key : String) (a b : α) (d : Dict α) :
    insert key a (insert key b d) = insert key a d := by
  induction d with
  | nil => simp [insert]
  | cons entry rest ih =>
      obtain ⟨k, v⟩ := entry
      by_cases lt : key < k
      · simp [insert, lt]
      · by_cases same : key = k
        · simp [insert, same]
        · simp [insert, lt, same, ih]

/-- Two names are set in any order. For one name twice this fails, since the later value counts. -/
theorem insert_comm {key key' : String} (differ : key ≠ key') (a b : α) (d : Dict α) :
    insert key a (insert key' b d) = insert key' b (insert key a d) := by
  wlog lt : key < key' generalizing key key' a b
  · exact (this differ.symm b a ((not_lt.1 lt).lt_of_ne differ.symm)).symm
  induction d with
  | nil => simp [insert, lt, lt_asymm lt, differ.symm]
  | cons entry rest ih =>
      obtain ⟨k, v⟩ := entry
      rcases lt_trichotomy key k with before | rfl | behind
      · rcases lt_trichotomy key' k with before' | rfl | behind'
        · simp [insert, lt, before, before', lt_asymm lt, differ.symm]
        · simp [insert, lt, lt_asymm lt, differ.symm]
        · simp [insert, before, lt_asymm lt, lt_asymm behind', behind'.ne', differ.symm]
      · simp [insert, lt_asymm lt, differ.symm]
      · have behind' := behind.trans lt
        simp [insert, lt_asymm behind, behind.ne', lt_asymm behind', behind'.ne', ih]

/-- A name behind all others goes to the end. -/
theorem insert_eq_append {key : String} (value : α) {d : Dict α} (behind : ∀ k ∈ keys d, k < key) :
    insert key value d = d ++ [(key, value)] := by
  induction d with
  | nil => rfl
  | cons entry rest ih =>
      obtain ⟨k, v⟩ := entry
      rw [keys_cons, List.forall_mem_cons] at behind
      rw [insert, if_neg (lt_asymm behind.1), if_neg (ne_of_gt behind.1), ih behind.2,
        List.cons_append]

/-- A dictionary has each name once. -/
theorem Sorted.nodup_keys {d : Dict α} (h : d.Sorted) : (keys d).Nodup :=
  (List.pairwise_map.2 h).imp ne_of_lt

/-- The order of the names does not depend on what stands under them. -/
theorem sorted_mapValues {f : α → β} {d : Dict α} : (mapValues f d).Sorted ↔ d.Sorted :=
  List.pairwise_map

/-- Setting one name changes no other. -/
theorem get?_insert_of_ne {key k : String} (h : k ≠ key) (value : α) (d : Dict α) :
    get? (insert key value d) k = get? d k := by
  induction d with
  | nil => exact if_neg h.symm
  | cons entry rest ih =>
      obtain ⟨k', v⟩ := entry
      rw [insert]
      split
      · exact if_neg h.symm
      · split
        · next same =>
            subst same
            rw [get?_cons, get?_cons, if_neg h.symm, if_neg h.symm]
        · rw [get?_cons, get?_cons, ih]

/-- What is found after an insertion: the new value under its name, and under others what was there.
-/
theorem get?_insert (key k : String) (value : α) (d : Dict α) :
    get? (insert key value d) k = if k = key then some value else get? d k := by
  split
  · next same => rw [same, get?_insert_self]
  · next other => exact get?_insert_of_ne other value d

/-- Erasing one name changes no other. -/
theorem get?_erase_of_ne {key k : String} (h : k ≠ key) (d : Dict α) :
    get? (erase d key) k = get? d k := by
  induction d with
  | nil => rfl
  | cons entry rest ih =>
      obtain ⟨k', v⟩ := entry
      unfold erase at ih ⊢
      by_cases erased : k' = key
      · rw [List.filter_cons_of_neg (by simp [erased]), ih, get?_cons,
          if_neg fun same => h (same.symm.trans erased)]
      · rw [List.filter_cons_of_pos (by simp [erased]), get?_cons, get?_cons, ih]

/-- A value that is found is that of an entry. -/
theorem mem_of_get? {d : Dict α} {k : String} {v : α} (h : get? d k = some v) : (k, v) ∈ d := by
  induction d with
  | nil => cases h
  | cons entry rest ih =>
      obtain ⟨k', v'⟩ := entry
      rw [get?_cons] at h
      split at h
      · next same =>
          cases h
          rw [same]
          exact List.mem_cons_self
      · exact List.mem_cons_of_mem _ (ih h)

theorem get?_eq_none {d : Dict α} {k : String} (absent : k ∉ keys d) : get? d k = none := by
  cases found : get? d k with
  | none => rfl
  | some value => exact absurd (List.mem_map_of_mem (mem_of_get? found)) absent

theorem get?_erase_self (d : Dict α) (key : String) : get? (erase d key) key = none := by
  cases found : get? (erase d key) key with
  | none => rfl
  | some value =>
      have kept := (List.mem_filter.1 (mem_of_get? found)).2
      exact absurd rfl (of_decide_eq_true kept)

theorem mapValues_id (d : Dict α) : mapValues id d = d :=
  List.map_id d

/-- Dictionaries with the same images have the same values, when values with the same image are the
same. -/
theorem mapValues_injective {f : α → β} (h : Function.Injective f) :
    Function.Injective (mapValues f) :=
  (Function.injective_id.prodMap h).list_map

/-- A function of the values may be applied before or after an insertion. -/
theorem insert_mapValues (f : α → β) (key : String) (value : α) (d : Dict α) :
    insert key (f value) (mapValues f d) = mapValues f (insert key value d) := by
  induction d with
  | nil => rfl
  | cons entry rest ih =>
      obtain ⟨k, v⟩ := entry
      show insert key (f value) ((k, f v) :: mapValues f rest) = _
      rw [insert, insert, ih]
      split
      · rfl
      · split <;> rfl

/-! ### Dictionaries of lists -/

private theorem mem_keys_foldl {k : String} {d : Dict α} {entries : List (String × α)} :
    k ∈ keys (entries.foldl (fun d entry => insert entry.1 entry.2 d) d) ↔
      k ∈ keys d ∨ k ∈ entries.map Prod.fst := by
  induction entries generalizing d with
  | nil => simp
  | cons entry rest ih =>
      rw [List.foldl_cons, ih, mem_keys_insert, List.map_cons, List.mem_cons]
      tauto

private theorem sorted_foldl {d : Dict α} (h : d.Sorted) (entries : List (String × α)) :
    (entries.foldl (fun d entry => insert entry.1 entry.2 d) d).Sorted := by
  induction entries generalizing d with
  | nil => exact h
  | cons entry rest ih => exact ih (h.insert entry.1 entry.2)

/-- The dictionary of a list of entries is in the order of the names. -/
theorem sorted_ofList (entries : List (String × α)) : (ofList entries).Sorted :=
  sorted_foldl .nil entries

private theorem mem_of_mem_foldl {d : Dict α} {entries : List (String × α)} {entry : String × α}
    (h : entry ∈ entries.foldl (fun d entry => insert entry.1 entry.2 d) d) :
    entry ∈ d ∨ entry ∈ entries := by
  induction entries generalizing d with
  | nil => exact .inl h
  | cons first rest ih =>
      rcases ih h with h | h
      · rcases mem_of_mem_insert h with rfl | h
        · exact .inr List.mem_cons_self
        · exact .inl h
      · exact .inr (List.mem_cons_of_mem _ h)

/-- The dictionary of a list of entries has no others. -/
theorem mem_of_mem_ofList {entries : List (String × α)} {entry : String × α}
    (h : entry ∈ ofList entries) : entry ∈ entries :=
  (mem_of_mem_foldl h).resolve_left List.not_mem_nil

/-- A dictionary has the names of its entries. -/
theorem mem_keys_ofList {k : String} {entries : List (String × α)} :
    k ∈ keys (ofList entries) ↔ k ∈ entries.map Prod.fst := by
  rw [ofList, mem_keys_foldl]
  simp

/-- Entries with new names are all kept when they are inserted one by one. -/
private theorem foldl_perm {d : Dict α} {entries : List (String × α)}
    (h : (keys d ++ entries.map Prod.fst).Nodup) :
    (entries.foldl (fun d entry => insert entry.1 entry.2 d) d).Perm (d ++ entries) := by
  induction entries generalizing d with
  | nil => simp
  | cons entry rest ih =>
      obtain ⟨key, value⟩ := entry
      rw [List.map_cons, List.nodup_middle, List.nodup_cons, List.mem_append, not_or] at h
      have step : (insert key value d).Perm _ := insert_perm h.1.1
      -- the inserted name may not occur among those that follow, nor these in the dictionary
      have names : (keys (insert key value d)).Perm (key :: keys d) := step.map Prod.fst
      have distinct : (keys (insert key value d) ++ rest.map Prod.fst).Nodup := by
        rw [(names.append_right _).nodup_iff, List.cons_append, List.nodup_cons, List.mem_append,
          not_or]
        exact h
      exact (ih distinct).trans ((step.append_right _).trans List.perm_middle.symm)

/-- Entries with different names are all kept, in the order of their names. -/
theorem ofList_perm {entries : List (String × α)} (h : (entries.map Prod.fst).Nodup) :
    (ofList entries).Perm entries :=
  foldl_perm (d := []) h

/-- A dictionary is that of its entries in any order. Documents that list their members otherwise
are therefore read as the same value. -/
theorem Sorted.ofList_eq {d : Dict α} (h : d.Sorted) {entries : List (String × α)}
    (perm : entries.Perm d) : ofList entries = d := by
  have distinct : (entries.map Prod.fst).Nodup :=
    (perm.map Prod.fst).nodup_iff.2 h.nodup_keys
  refine ((ofList_perm distinct).trans perm).eq_of_pairwise ?_ (sorted_ofList entries) h
  exact fun _ _ _ _ lt gt => absurd gt (lt_asymm lt)

/-- The value of a name that occurs once is that of its entry. With two entries of one name the
second would never be found. -/
theorem get?_eq_some_iff {d : Dict α} (h : (keys d).Nodup) {k : String} {v : α} :
    get? d k = some v ↔ (k, v) ∈ d := by
  induction d with
  | nil => simp
  | cons entry rest ih =>
      obtain ⟨k', v'⟩ := entry
      rw [keys_cons, List.nodup_cons] at h
      rw [get?_cons, List.mem_cons, Prod.mk.injEq]
      by_cases heq : k' = k
      · subst heq
        have absent : (k', v) ∉ rest := fun hmem => h.1 (List.mem_map_of_mem (f := Prod.fst) hmem)
        simp [absent, eq_comm]
      · rw [if_neg heq, ih h.2]
        simp [Ne.symm heq]

/-- The value of a name is that of its entry, when entries have different names. -/
theorem get?_ofList {entries : List (String × α)} (h : (entries.map Prod.fst).Nodup) {k : String}
    {v : α} : get? (ofList entries) k = some v ↔ (k, v) ∈ entries := by
  have perm := ofList_perm h
  rw [get?_eq_some_iff ((perm.map Prod.fst).nodup_iff.2 h), perm.mem_iff]

/-- Entries with different names are found in their dictionary as they are in the list. -/
theorem get?_ofList_eq {entries : List (String × α)} (h : (entries.map Prod.fst).Nodup)
    (k : String) : get? (ofList entries) k = get? entries k := by
  ext v
  rw [get?_ofList h, get?_eq_some_iff h]

/-- Entries that agree with a function are found where it is defined, even if some have the same
name. Names that are used for two purposes need this. -/
theorem get?_ofList_of_forall {f : String → Option α} {entries : List (String × α)}
    (h : ∀ entry ∈ entries, f entry.1 = some entry.2) (k : String) :
    get? (ofList entries) k = if k ∈ entries.map Prod.fst then f k else none := by
  suffices ∀ d : Dict α,
      get? (entries.foldl (fun d entry => insert entry.1 entry.2 d) d) k =
        if k ∈ entries.map Prod.fst then f k else get? d k from this []
  induction entries with
  | nil => exact fun d => (if_neg List.not_mem_nil).symm
  | cons entry rest ih =>
      intro d
      rw [List.forall_mem_cons] at h
      rw [List.foldl_cons, ih h.2, get?_insert, List.map_cons]
      by_cases later : k ∈ rest.map Prod.fst
      · rw [if_pos later, if_pos (List.mem_cons_of_mem _ later)]
      · rw [if_neg later]
        by_cases same : k = entry.1
        · rw [if_pos same, same, if_pos List.mem_cons_self, h.1]
        · rw [if_neg same, if_neg (fun mem => (List.mem_cons.1 mem).elim same later)]

/-! ### Functions that may fail -/

/-- A function that may fail keeps the names. -/
theorem keys_mapValuesM {ε : Type} {f : α → Except ε β} {d : Dict α} {result : Dict β}
    (h : mapValuesM f d = .ok result) : keys result = keys d := by
  induction d generalizing result with
  | nil =>
      cases h
      rfl
  | cons entry rest ih =>
      obtain ⟨k, v⟩ := entry
      rw [mapValuesM] at h
      cases first : f v with
      | error cause =>
          rw [first] at h
          cases h
      | ok value =>
          cases others : mapValuesM f rest with
          | error cause =>
              rw [first, others] at h
              cases h
          | ok rest' =>
              rw [first, others] at h
              cases h
              exact congrArg (k :: ·) (ih others)

/-- A function that may fail succeeds for a dictionary when it does for each value. -/
theorem exists_mapValuesM_iff {ε : Type} {f : α → Except ε β} {d : Dict α} :
    (∃ result, mapValuesM f d = .ok result) ↔ ∀ entry ∈ d, ∃ b, f entry.2 = .ok b := by
  induction d with
  | nil => exact iff_of_true ⟨[], rfl⟩ nofun
  | cons entry rest ih =>
      obtain ⟨k, a⟩ := entry
      rw [List.forall_mem_cons, ← ih, mapValuesM]
      constructor
      · rintro ⟨result, h⟩
        obtain ⟨b, first, h⟩ := exists_of_except_bind h
        obtain ⟨others, rest, -⟩ := exists_of_except_bind h
        exact ⟨⟨b, first⟩, others, rest⟩
      · rintro ⟨⟨b, first⟩, others, rest⟩
        rw [first, rest]
        exact ⟨_, rfl⟩

/-- The values of the result are those of the function. -/
theorem exists_of_mem_mapValuesM {ε : Type} {f : α → Except ε β} {d : Dict α} {result : Dict β}
    (h : mapValuesM f d = .ok result) {entry : String × β} (mem : entry ∈ result) :
    ∃ a, (entry.1, a) ∈ d ∧ f a = .ok entry.2 := by
  induction d generalizing result with
  | nil =>
      cases h
      cases mem
  | cons first rest ih =>
      obtain ⟨k, a⟩ := first
      obtain ⟨b, made, h⟩ := exists_of_except_bind h
      obtain ⟨others, mades, h⟩ := exists_of_except_bind h
      cases h
      rcases List.mem_cons.1 mem with rfl | mem
      · exact ⟨a, List.mem_cons_self, made⟩
      · obtain ⟨a', mem', made'⟩ := ih mades mem
        exact ⟨a', List.mem_cons_of_mem _ mem', made'⟩

/-- What is found in the result is the value of the function at what was found before. -/
theorem get?_mapValuesM {ε : Type} {f : α → Except ε β} {d : Dict α} {result : Dict β}
    (h : mapValuesM f d = .ok result) {k : String} {a : α} (found : get? d k = some a) :
    ∃ b, f a = .ok b ∧ get? result k = some b := by
  induction d generalizing result with
  | nil => cases found
  | cons first rest ih =>
      obtain ⟨k', a'⟩ := first
      obtain ⟨b, made, h⟩ := exists_of_except_bind h
      obtain ⟨others, mades, h⟩ := exists_of_except_bind h
      cases h
      rw [get?_cons] at found
      split at found
      · next same =>
          cases found
          exact ⟨b, made, if_pos same⟩
      · next other =>
          obtain ⟨b', made', found'⟩ := ih mades found
          exact ⟨b', made', (if_neg other).trans found'⟩

/-- What can be undone for each value can be undone for a dictionary. The values that come back are
then the very ones that went in. -/
theorem exists_mapValuesM {ε : Type} {f : α → Except ε β} {g : β → Except ε α}
    (h : ∀ a, ∃ b, f a = .ok b ∧ g b = .ok a) (d : Dict α) :
    ∃ result, mapValuesM f d = .ok result ∧ mapValuesM g result = .ok d := by
  induction d with
  | nil => exact ⟨[], rfl, rfl⟩
  | cons entry rest ih =>
      obtain ⟨k, a⟩ := entry
      obtain ⟨b, there, back⟩ := h a
      obtain ⟨others, theres, backs⟩ := ih
      refine ⟨(k, b) :: others, ?_, ?_⟩
      · rw [mapValuesM, there, theres]
        rfl
      · rw [mapValuesM, back, backs]
        rfl

/-- The values of named values are mapped as those of a list. There have to be as many of them as
names. -/
theorem mapValuesM_zip {ε : Type} (f : α → Except ε β) {names : List String} {values : List α}
    (complete : names.length = values.length) :
    mapValuesM f (names.zip values) = return names.zip (← values.mapM f) := by
  induction names generalizing values with
  | nil =>
      cases List.length_eq_zero_iff.1 complete.symm
      rfl
  | cons name names ih =>
      obtain ⟨value, values, rfl⟩ := List.exists_cons_of_length_eq_add_one complete.symm
      rw [List.zip_cons_cons, mapValuesM, ih (Nat.succ.inj complete), List.mapM_cons]
      cases f value with
      | error cause => rfl
      | ok b => cases values.mapM f <;> rfl

/-- A function of the values may be applied before or after a dictionary is made. -/
theorem ofList_mapValues (f : α → β) (entries : List (String × α)) :
    ofList (entries.map fun entry => (entry.1, f entry.2)) = mapValues f (ofList entries) := by
  suffices ∀ d : Dict α,
      (entries.map fun entry => (entry.1, f entry.2)).foldl
          (fun d entry => insert entry.1 entry.2 d) (mapValues f d) =
        mapValues f (entries.foldl (fun d entry => insert entry.1 entry.2 d) d) from this []
  induction entries with
  | nil => exact fun _ => rfl
  | cons entry rest ih =>
      intro d
      rw [List.map_cons, List.foldl_cons, List.foldl_cons, ← ih]
      dsimp only
      rw [insert_mapValues]

end DocumentTable.Dict
