import DocumentTable.Event

/-!
# Reporting computations

A computation may fail, and it reports events on its way. What it reported before a failure stays
reported.

## Main definitions

* `Traced`: the events of a computation and its result
* `Traced.report`: reports one event
* `Exchange`: a reporting computation over the state of a communication partner

## Main results

* `Traced.result_bind`, `Traced.result_pure`: the result of a sequence depends on results only
* `Exchange.run_bind_ok`, `Exchange.run_bind_error`: how exchanges follow each other
-/

namespace DocumentTable

/-- The events of a computation, in order, and its result. -/
structure Traced (ε α : Type) where
  events : List Event := []
  result : Except ε α

namespace Traced

variable {ε α β : Type}

/-- A result without events. -/
def ofExcept (result : Except ε α) : Traced ε α :=
  ⟨[], result⟩

/-- One computation and then, unless it failed, another one. -/
def andThen (x : Traced ε α) (f : α → Traced ε β) : Traced ε β :=
  match x.result with
  | .ok value => ⟨x.events ++ (f value).events, (f value).result⟩
  | .error cause => ⟨x.events, .error cause⟩

instance : Monad (Traced ε) where
  pure value := ⟨[], .ok value⟩
  bind := andThen

instance : MonadExceptOf ε (Traced ε) where
  throw cause := ⟨[], .error cause⟩
  tryCatch x handle :=
    match x.result with
    | .ok _ => x
    | .error cause => ⟨x.events ++ (handle cause).events, (handle cause).result⟩

instance : MonadLift (Except ε) (Traced ε) where
  monadLift := ofExcept

/-- Reports one event. -/
def report (event : Event) : Traced ε Unit :=
  ⟨[event], .ok ()⟩

/-- The computation with its failure under another name. -/
def mapError {δ : Type} (f : ε → δ) (x : Traced ε α) : Traced δ α :=
  ⟨x.events, x.result.mapError f⟩

@[simp] theorem result_pure (value : α) : (pure value : Traced ε α).result = .ok value := rfl

@[simp] theorem result_throw (cause : ε) : (throw cause : Traced ε α).result = .error cause := rfl

@[simp] theorem result_ofExcept (result : Except ε α) : (ofExcept result).result = result := rfl

@[simp] theorem result_report (event : Event) :
    (report event : Traced ε Unit).result = .ok () := rfl

/-- The result of a sequence depends on the results of its parts only. -/
@[simp] theorem result_bind (x : Traced ε α) (f : α → Traced ε β) :
    (x >>= f).result = x.result >>= fun value => (f value).result := by
  obtain ⟨events, result⟩ := x
  cases result <;> rfl

instance : LawfulMonad (Traced ε) := LawfulMonad.mk' (Traced ε)
  (fun x => by
    obtain ⟨events, result⟩ := x
    cases result <;> simp [Functor.map, andThen])
  (fun value f => by simp [bind, andThen, pure])
  (fun x f g => by
    obtain ⟨events, result⟩ := x
    cases result with
    | error cause => rfl
    | ok value =>
      simp only [bind, andThen]
      cases (f value).result <;> simp)

end Traced

/-- A reporting computation that talks to a partner with states `σ`. The state survives a
failure. -/
def Exchange (σ ε α : Type) : Type :=
  σ → Traced ε α × σ

namespace Exchange

variable {σ ε α β : Type}

/-- The outcome of an exchange from a state, and the state after it. -/
def run (x : Exchange σ ε α) (state : σ) : Traced ε α × σ :=
  x state

/-- A computation that leaves the partner alone. -/
def ofTraced (x : Traced ε α) : Exchange σ ε α :=
  fun state => (x, state)

/-- The exchange with its failure under another name. -/
def mapError {δ : Type} (f : ε → δ) (x : Exchange σ ε α) : Exchange σ δ α := fun state =>
  let (outcome, state) := x state
  (outcome.mapError f, state)

/-- One exchange and then, unless it failed, another one. -/
def andThen (x : Exchange σ ε α) (f : α → Exchange σ ε β) : Exchange σ ε β := fun state =>
  let (first, middle) := x state
  match first.result with
  | .ok value =>
    let (second, final) := f value middle
    (⟨first.events ++ second.events, second.result⟩, final)
  | .error cause => (⟨first.events, .error cause⟩, middle)

instance : Monad (Exchange σ ε) where
  pure value := ofTraced (pure value)
  bind := andThen

instance : MonadExceptOf ε (Exchange σ ε) where
  throw cause := ofTraced (throw cause)
  tryCatch x handle := fun state =>
    let (first, middle) := x state
    match first.result with
    | .ok _ => (first, middle)
    | .error cause =>
      let (second, final) := handle cause middle
      (⟨first.events ++ second.events, second.result⟩, final)

instance : MonadLift (Traced ε) (Exchange σ ε) where
  monadLift := ofTraced

/-- Reports one event. -/
def report (event : Event) : Exchange σ ε Unit :=
  ofTraced (.report event)

@[simp] theorem run_pure (value : α) (state : σ) :
    (pure value : Exchange σ ε α).run state = (pure value, state) := rfl

@[simp] theorem run_ofTraced (x : Traced ε α) (state : σ) :
    (ofTraced x : Exchange σ ε α).run state = (x, state) := rfl

/-- After a success the next exchange starts from the state that was reached. -/
theorem run_bind_ok {x : Exchange σ ε α} {f : α → Exchange σ ε β} {state middle : σ}
    {events : List Event} {value : α} (h : x.run state = (⟨events, .ok value⟩, middle)) :
    (x >>= f).run state =
      (⟨events ++ ((f value).run middle).1.events, ((f value).run middle).1.result⟩,
        ((f value).run middle).2) := by
  change andThen x f state = _
  rw [run] at h
  simp only [andThen, h, run]

/-- After a failure nothing more is said. -/
theorem run_bind_error {x : Exchange σ ε α} {f : α → Exchange σ ε β} {state middle : σ}
    {events : List Event} {cause : ε} (h : x.run state = (⟨events, .error cause⟩, middle)) :
    (x >>= f).run state = (⟨events, .error cause⟩, middle) := by
  change andThen x f state = _
  rw [run] at h
  simp only [andThen, h]

instance : LawfulMonad (Exchange σ ε) := LawfulMonad.mk' (Exchange σ ε)
  (fun x => by
    funext state
    simp only [Functor.map, andThen, ofTraced, Function.comp_apply]
    obtain ⟨⟨events, result⟩, middle⟩ := x state
    cases result <;> simp [pure])
  (fun value f => by
    funext state
    simp [bind, andThen, pure, ofTraced])
  (fun x f g => by
    funext state
    simp only [bind, andThen]
    obtain ⟨⟨events, result⟩, middle⟩ := x state
    cases result with
    | error cause => rfl
    | ok value =>
      simp only
      obtain ⟨⟨events', result'⟩, final⟩ := f value middle
      cases result' <;> simp)

end Exchange

end DocumentTable
