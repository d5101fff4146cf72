import Mathlib.Data.List.Forall2

/-!
# Steps that may fail

## Main results

* `exists_of_except_bind`, `exists_of_except_map`: the steps of a success succeed
* `except_map_error_iff`, `except_mapError_ok_iff`: a function of the result changes no failure, and
  one of the failure no success
* `except_mapM_eq_ok`: steps that undo a function undo it on lists
* `except_mapM_ok_iff`, `except_mapM_iff_forall₂`: steps for a list succeed together
* `except_mapM_error_iff`: otherwise the first failure decides
* `except_mapM_bind`: steps that come after steps that succeed
* `FailsWithin.bind`, `FailsWithin.mapM`: what fails for some causes only
-/

namespace DocumentTable

variable {ε α β : Type}

/-- A sequence that succeeds is a success of its first part and of the rest. Successes are taken
apart with this, and no definition needs to be unfolded for it. -/
theorem exists_of_except_bind {x : Except ε α} {f : α → Except ε β} {b : β}
    (h : (x >>= f) = .ok b) : ∃ a, x = .ok a ∧ f a = .ok b := by
  cases x with
  | error cause => cases h
  | ok a => exact ⟨a, rfl, h⟩

theorem exists_of_except_map {x : Except ε α} {f : α → β} {b : β} (h : x.map f = .ok b) :
    ∃ a, x = .ok a ∧ f a = b := by
  cases x with
  | error cause => cases h
  | ok a => exact ⟨a, rfl, Except.ok.inj h⟩

theorem except_map_error_iff {x : Except ε α} {f : α → β} {cause : ε} :
    x.map f = .error cause ↔ x = .error cause := by
  cases x with
  | error cause' =>
      constructor
      · intro fails
        cases fails
        rfl
      · intro fails
        cases fails
        rfl
  | ok a => exact iff_of_false nofun nofun

theorem except_bind_pure_error_iff {x : Except ε α} {f : α → β} {cause : ε} :
    (x >>= fun a => pure (f a)) = .error cause ↔ x = .error cause := by
  have same : (x >>= fun a => pure (f a)) = x.map f := by cases x <;> rfl
  rw [same, except_map_error_iff]

/-- Another name for the failures changes no success. -/
theorem except_mapError_ok_iff {δ : Type} {x : Except ε α} {f : ε → δ} {a : α} :
    x.mapError f = .ok a ↔ x = .ok a := by
  cases x with
  | error cause => exact iff_of_false nofun nofun
  | ok a' =>
      show Except.ok a' = .ok a ↔ _
      rw [Except.ok.injEq, Except.ok.injEq]

/-- The results of steps for a list are the results of each of them. Written with two lists of
outcomes, this is an equation. -/
theorem except_mapM_ok_iff {f : α → Except ε β} {l : List α} {results : List β} :
    l.mapM f = .ok results ↔ l.map f = results.map .ok := by
  induction l generalizing results with
  | nil =>
      cases results with
      | nil => exact iff_of_true rfl rfl
      | cons b rest => exact iff_of_false nofun nofun
  | cons a l ih =>
      rw [List.mapM_cons, List.map_cons]
      constructor
      · intro succeeds
        obtain ⟨b, first, succeeds⟩ := exists_of_except_bind succeeds
        obtain ⟨rest, others, succeeds⟩ := exists_of_except_bind succeeds
        cases succeeds
        rw [first, ih.1 others, List.map_cons]
      · cases results with
        | nil => nofun
        | cons b rest =>
            intro same
            obtain ⟨first, others⟩ := List.cons.inj same
            rw [first, ih.2 others]
            rfl

/-- The results of steps for a list are those of its elements, one by one. In this form the elements
may be described in another way. -/
theorem except_mapM_iff_forall₂ {f : α → Except ε β} {l : List α} {results : List β} :
    l.mapM f = .ok results ↔ List.Forall₂ (fun a b => f a = .ok b) l results := by
  rw [except_mapM_ok_iff, ← List.forall₂_eq_eq_eq, List.forall₂_map_left_iff,
    List.forall₂_map_right_iff]

/-- Steps that undo a function undo it on lists, and accept nothing that the function does not make.
-/
theorem except_mapM_eq_ok {f : α → Except ε β} {g : β → α} (h : ∀ a b, f a = .ok b ↔ a = g b)
    {l : List α} {results : List β} : l.mapM f = .ok results ↔ l = results.map g := by
  rw [except_mapM_ok_iff]
  induction l generalizing results with
  | nil =>
      cases results with
      | nil => exact iff_of_true rfl rfl
      | cons b rest => exact iff_of_false nofun nofun
  | cons a l ih =>
      cases results with
      | nil => exact iff_of_false nofun nofun
      | cons b rest =>
          rw [List.map_cons, List.map_cons, List.map_cons, List.cons.injEq, List.cons.injEq, h, ih]

/-- Steps for a part of a list make a part of the results, as no step depends on the others. -/
theorem except_mapM_drop {f : α → Except ε β} {l : List α} {results : List β}
    (h : l.mapM f = .ok results) (n : Nat) : (l.drop n).mapM f = .ok (results.drop n) := by
  rw [except_mapM_ok_iff] at h ⊢
  rw [List.map_drop, h, List.map_drop]

theorem except_mapM_take {f : α → Except ε β} {l : List α} {results : List β}
    (h : l.mapM f = .ok results) (n : Nat) : (l.take n).mapM f = .ok (results.take n) := by
  rw [except_mapM_ok_iff] at h ⊢
  rw [List.map_take, h, List.map_take]

/-- Steps for a list make as many results as there are elements. -/
theorem length_of_except_mapM {f : α → Except ε β} {l : List α} {results : List β}
    (h : l.mapM f = .ok results) : results.length = l.length := by
  have same := congrArg List.length (except_mapM_ok_iff.1 h)
  rw [List.length_map, List.length_map] at same
  exact same.symm

/-- Steps for a list succeed when each of them does. One that fails would end the others. -/
theorem exists_except_mapM_iff {f : α → Except ε β} {l : List α} :
    (∃ results, l.mapM f = .ok results) ↔ ∀ a ∈ l, ∃ b, f a = .ok b := by
  induction l with
  | nil => exact iff_of_true ⟨[], rfl⟩ nofun
  | cons a l ih =>
      rw [List.forall_mem_cons, ← ih, List.mapM_cons]
      constructor
      · rintro ⟨results, h⟩
        obtain ⟨b, first, h⟩ := exists_of_except_bind h
        obtain ⟨others, rest, -⟩ := exists_of_except_bind h
        exact ⟨⟨b, first⟩, others, rest⟩
      · rintro ⟨⟨b, first⟩, others, rest⟩
        rw [first, rest]
        exact ⟨_, rfl⟩

/-- Steps that come after steps that succeed may be taken by themselves. -/
theorem except_mapM_bind {γ : Type} {f : α → Except ε β} {l : List α} {results : List β}
    (succeed : l.map f = results.map .ok) (g : β → Except ε γ) :
    l.mapM (fun a => f a >>= g) = results.mapM g := by
  induction l generalizing results with
  | nil =>
      cases results with
      | nil => rfl
      | cons b rest => cases succeed
  | cons a l ih =>
      cases results with
      | nil => cases succeed
      | cons b rest =>
          obtain ⟨first, others⟩ := List.cons.inj succeed
          rw [List.mapM_cons, List.mapM_cons, ih others, first]
          rfl

/-- What steps for a list make is made by one of them, of an element of the list. -/
theorem exists_of_mem_except_mapM {f : α → Except ε β} {l : List α} {results : List β}
    (h : l.mapM f = .ok results) {b : β} (mem : b ∈ results) : ∃ a ∈ l, f a = .ok b := by
  rw [except_mapM_ok_iff] at h
  have made : Except.ok b ∈ l.map f := h ▸ List.mem_map_of_mem mem
  exact List.mem_map.1 made

/-- Some element of a list is the first to fail, with the given cause. -/
def FailsFirst (f : α → Except ε β) (l : List α) (cause : ε) : Prop :=
  ∃ before a after, l = before ++ a :: after ∧ (∀ x ∈ before, ∃ b, f x = .ok b) ∧
    f a = .error cause

/-- Steps for a list fail when one of them does, and the first failure decides. The elements before
it have to succeed. -/
theorem except_mapM_error_iff {f : α → Except ε β} {l : List α} {cause : ε} :
    l.mapM f = .error cause ↔ FailsFirst f l cause := by
  induction l with
  | nil =>
      refine iff_of_false nofun ?_
      rintro ⟨before, a, after, split, -⟩
      exact List.cons_ne_nil _ _ (List.append_eq_nil_iff.1 split.symm).2
  | cons a l ih =>
      rw [List.mapM_cons]
      -- the head is the first failure, or the first failure is one of the rest
      cases first : f a with
      | error cause' =>
          constructor
          · intro fails
            cases fails
            exact ⟨[], a, l, rfl, nofun, first⟩
          · rintro ⟨before, x, after, split, succeed, fails⟩
            cases before with
            | nil =>
                cases split
                rw [first] at fails
                cases fails
                rfl
            | cons y before =>
                cases split
                obtain ⟨b, hb⟩ := succeed a List.mem_cons_self
                rw [first] at hb
                cases hb
      | ok b =>
          have rest : (Except.ok b >>= fun b => do return b :: (← l.mapM f)) = .error cause ↔
              l.mapM f = .error cause :=
            except_bind_pure_error_iff (x := l.mapM f) (f := (b :: ·))
          rw [rest, ih]
          constructor
          · rintro ⟨before, x, after, rfl, succeed, fails⟩
            refine ⟨a :: before, x, after, rfl, ?_, fails⟩
            intro y hy
            rcases List.mem_cons.1 hy with rfl | hy
            · exact ⟨b, first⟩
            · exact succeed y hy
          · rintro ⟨before, x, after, split, succeed, fails⟩
            cases before with
            | nil =>
                cases split
                rw [first] at fails
                cases fails
            | cons y before =>
                cases split
                exact ⟨before, x, after, rfl, fun z hz => succeed z (List.mem_cons_of_mem a hz),
                  fails⟩

/-! ### Causes of failures -/

/-- If this fails, then for a cause of some kind. -/
def FailsWithin (P : ε → Prop) (x : Except ε α) : Prop :=
  ∀ cause, x = .error cause → P cause

namespace FailsWithin

variable {P : ε → Prop} {x : Except ε α}

theorem ok (a : α) : FailsWithin P (.ok a : Except ε α) :=
  nofun

theorem error {cause : ε} (holds : P cause) : FailsWithin P (.error cause : Except ε α) := by
  intro cause' fails
  cases fails
  exact holds

theorem mono {Q : ε → Prop} (hx : FailsWithin P x) (weaker : ∀ cause, P cause → Q cause) :
    FailsWithin Q x :=
  fun cause fails => weaker cause (hx cause fails)

/-- A sequence fails within a class of causes when both of its parts do. -/
theorem bind {f : α → Except ε β} (hx : FailsWithin P x) (hf : ∀ a, FailsWithin P (f a)) :
    FailsWithin P (x >>= f) := by
  intro cause fails
  cases x with
  | error cause' =>
      cases fails
      exact hx _ rfl
  | ok a => exact hf a cause fails

theorem map (hx : FailsWithin P x) (f : α → β) : FailsWithin P (do return f (← x)) :=
  hx.bind fun _ => ok _

/-- Steps for a list fail within a class of causes when each of them does, by induction on the list.
-/
theorem mapM {f : α → Except ε β} (hf : ∀ a, FailsWithin P (f a)) (l : List α) :
    FailsWithin P (l.mapM f) := by
  intro cause fails
  obtain ⟨_, a, _, _, _, fails⟩ := except_mapM_error_iff.1 fails
  exact hf a cause fails

theorem mapError {δ : Type} {f : δ → ε} (holds : ∀ cause, P (f cause)) (x : Except δ α) :
    FailsWithin P (x.mapError f) := by
  cases x with
  | error cause => exact error (holds cause)
  | ok a => exact ok a

end FailsWithin

end DocumentTable
