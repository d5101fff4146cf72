import DocumentTable.Traced

/-!
# Exchanges and what they keep

An exchange is a sequence of computations and of requests. A property of the states of the partner
that each request keeps is kept by the whole.

## Main definitions

* `Exchange.result`, `Exchange.after`: the result of an exchange and the state after it
* `Exchange.Keeps`: from a state with a property an exchange leads to a state with it

## Main results

* `Exchange.result_bind`, `Exchange.after_bind`: the result of a sequence and the state after it
* `Exchange.Keeps.bind`, `Exchange.Keeps.mapM`: sequences keep what their parts keep
* `Exchange.result_mapM_of_keeps`: exchanges that are computations as long as a property is kept

## Design notes

A property has to be kept by failures as well, since the state survives them.
-/

namespace DocumentTable

namespace Exchange

variable {σ ε α β : Type}

/-- The result of an exchange that starts from a state. -/
def result (x : Exchange σ ε α) (s : σ) : Except ε α :=
  (x.run s).1.result

/-- The state after an exchange. -/
def after (x : Exchange σ ε α) (s : σ) : σ :=
  (x.run s).2

@[simp] theorem result_ofTraced (x : Traced ε α) (s : σ) :
    (ofTraced x : Exchange σ ε α).result s = x.result := rfl

@[simp] theorem after_ofTraced (x : Traced ε α) (s : σ) :
    (ofTraced x : Exchange σ ε α).after s = s := rfl

/-! ### Sequences -/

/-- The second exchange starts from the state after the first one, and is not begun when the first
one fails. -/
theorem result_bind (x : Exchange σ ε α) (f : α → Exchange σ ε β) (s : σ) :
    (x >>= f).result s = x.result s >>= fun a => (f a).result (x.after s) := by
  unfold result after
  cases ran : x.run s with
  | mk first middle =>
      obtain ⟨events, result⟩ := first
      cases result with
      | error cause =>
          rw [run_bind_error ran]
          rfl
      | ok a =>
          rw [run_bind_ok ran]
          rfl

/-- When the first exchange fails, the state is the one in which it has left the partner. -/
theorem after_bind (x : Exchange σ ε α) (f : α → Exchange σ ε β) (s : σ) :
    (x >>= f).after s =
      match x.result s with
      | .ok a => (f a).after (x.after s)
      | .error _ => x.after s := by
  unfold result after
  cases ran : x.run s with
  | mk first middle =>
      obtain ⟨events, result⟩ := first
      cases result with
      | error cause => rw [run_bind_error ran]
      | ok a => rw [run_bind_ok ran]

/-- A computation at the start leaves the partner alone. If it fails, nothing at all has been
exchanged. -/
theorem after_ofTraced_bind (x : Traced ε α) (f : α → Exchange σ ε β) (s : σ) :
    (ofTraced x >>= f).after s =
      match x.result with
      | .ok a => (f a).after s
      | .error _ => s := by
  rw [after_bind, result_ofTraced, after_ofTraced]

/-- Behind a computation that succeeds the exchange is the one that follows. -/
theorem result_ofTraced_bind_of_ok {x : Traced ε α} {a : α} (succeeds : x.result = .ok a)
    (f : α → Exchange σ ε β) (s : σ) : (ofTraced x >>= f).result s = (f a).result s := by
  rw [result_bind, result_ofTraced, succeeds]
  rfl

theorem after_ofTraced_bind_of_ok {x : Traced ε α} {a : α} (succeeds : x.result = .ok a)
    (f : α → Exchange σ ε β) (s : σ) : (ofTraced x >>= f).after s = (f a).after s := by
  rw [after_ofTraced_bind, succeeds]

/-- A function of the result changes no state, and no failure either. -/
theorem result_bind_pure (x : Exchange σ ε α) (f : α → β) (s : σ) :
    (x >>= fun a => pure (f a)).result s = (x.result s).map f := by
  rw [result_bind]
  cases x.result s <;> rfl

theorem after_bind_pure (x : Exchange σ ε α) (f : α → β) (s : σ) :
    (x >>= fun a => pure (f a)).after s = x.after s := by
  rw [after_bind]
  cases x.result s <;> rfl

theorem result_discard (x : Exchange σ ε α) (s : σ) :
    (Functor.discard x : Exchange σ ε Unit).result s = (x.result s).map fun _ => () :=
  result_bind_pure x (fun _ => ()) s

theorem after_discard (x : Exchange σ ε α) (s : σ) :
    (Functor.discard x : Exchange σ ε Unit).after s = x.after s :=
  after_bind_pure x (fun _ => ()) s

/-- Exchanges for a list follow each other, each from the state that the one before has left. -/
theorem result_mapM_cons (f : α → Exchange σ ε β) (a : α) (l : List α) (s : σ) :
    ((a :: l).mapM f).result s =
      (f a).result s >>= fun b => ((l.mapM f).result ((f a).after s)).map (b :: ·) := by
  rw [List.mapM_cons, result_bind]
  refine congrArg _ (funext fun b => ?_)
  rw [result_bind]
  cases (l.mapM f).result ((f a).after s) <;> rfl

theorem after_mapM_cons (f : α → Exchange σ ε β) (a : α) (l : List α) (s : σ) :
    ((a :: l).mapM f).after s =
      match (f a).result s with
      | .ok _ => (l.mapM f).after ((f a).after s)
      | .error _ => (f a).after s := by
  rw [List.mapM_cons, after_bind]
  cases (f a).result s with
  | error cause => rfl
  | ok b =>
      refine (after_bind _ _ _).trans ?_
      cases (l.mapM f).result ((f a).after s) <;> rfl

/-! ### Properties that are kept -/

/-- From a state with a property the exchange leads to a state with it, also when it fails. -/
def Keeps (P : σ → Prop) (x : Exchange σ ε α) : Prop :=
  ∀ s, P s → P (x.after s)

variable {P : σ → Prop}

theorem keeps_ofTraced (x : Traced ε α) : (ofTraced x : Exchange σ ε α).Keeps P :=
  fun _ holds => holds

/-- A property of states that both parts keep is kept by the sequence, wherever it ends. -/
theorem Keeps.bind {x : Exchange σ ε α} {f : α → Exchange σ ε β} (hx : x.Keeps P)
    (hf : ∀ a, (f a).Keeps P) : (x >>= f).Keeps P := by
  intro s holds
  rw [after_bind]
  split
  · exact hf _ _ (hx s holds)
  · exact hx s holds

/-- What follows a computation may rely on its success. It is not reached otherwise. -/
theorem keeps_ofTraced_bind {x : Traced ε α} {f : α → Exchange σ ε β}
    (hf : ∀ a, x.result = .ok a → (f a).Keeps P) : (ofTraced x >>= f).Keeps P := by
  intro s holds
  rw [after_ofTraced_bind]
  split
  · next a succeeds => exact hf a succeeds s holds
  · exact holds

/-- Exchanges for a list keep what each of them keeps, by induction on the list. -/
theorem Keeps.mapM {f : α → Exchange σ ε β} {l : List α} (hf : ∀ a ∈ l, (f a).Keeps P) :
    (l.mapM f).Keeps P := by
  induction l with
  | nil => exact keeps_ofTraced _
  | cons a l ih =>
      rw [List.mapM_cons]
      rw [List.forall_mem_cons] at hf
      exact hf.1.bind fun _ => (ih hf.2).bind fun _ => keeps_ofTraced _

/-- Exchanges for a list have the results of computations when states with a property do not tell
them apart. Each exchange has to keep the property, so that the next one meets such a state again.
-/
theorem result_mapM_of_keeps {f : α → Exchange σ ε β} {g : α → Except ε β}
    (kept : ∀ a, (f a).Keeps P) (result : ∀ a s, P s → (f a).result s = g a) (l : List α) {s : σ}
    (holds : P s) : (l.mapM f).result s = l.mapM g := by
  induction l generalizing s with
  | nil => rfl
  | cons a l ih =>
      rw [result_mapM_cons, result a s holds, ih (kept a s holds), List.mapM_cons]
      refine congrArg _ (funext fun b => ?_)
      cases l.mapM g <;> rfl

/-- Forgetting a result changes no state, so that what is kept stays kept. -/
theorem Keeps.discard {x : Exchange σ ε α} (hx : x.Keeps P) :
    (Functor.discard x : Exchange σ ε Unit).Keeps P :=
  hx.bind fun _ => keeps_ofTraced _

end Exchange

end DocumentTable
