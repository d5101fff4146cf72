/-!
# Dictionaries

Finite maps from names to values, as lists of entries in increasing order of their names. Two
dictionaries with the same entries are the same list.

## Main definitions

* `Dict`: the entries of a dictionary
* `Dict.insert`, `Dict.erase`, `Dict.get?`, `Dict.ofList`
* `Dict.Sorted`: each name once, in increasing order
-/

namespace DocumentTable

/-- The entries of a dictionary. -/
abbrev Dict (α : Type) := List (String × α)

namespace Dict

variable {α β : Type}

/-- The names of a dictionary. -/
def keys (d : Dict α) : List String :=
  d.map Prod.fst

/-- The names are in increasing order, which also makes them distinct. -/
def Sorted (d : Dict α) : Prop :=
  d.Pairwise fun a b => a.1 < b.1

/-- Sets the value of a name, in the place of its order or of its earlier value. -/
def insert (key : String) (value : α) : Dict α → Dict α
  | [] => [(key, value)]
  | (k, v) :: rest =>
    if key < k then (key, value) :: (k, v) :: rest
    else if key = k then (key, value) :: rest
    else (k, v) :: insert key value rest

/-- The value of a name. -/
def get? : Dict α → String → Option α
  | [], _ => none
  | (k, v) :: rest, key => if k = key then some v else get? rest key

/-- The dictionary without a name. -/
def erase (d : Dict α) (key : String) : Dict α :=
  d.filter fun entry => entry.1 ≠ key

/-- The dictionary of a list of entries, of which the last one for a name counts. -/
def ofList (entries : List (String × α)) : Dict α :=
  entries.foldl (fun d entry => insert entry.1 entry.2 d) []

/-- Applies a function to each value. -/
def mapValues (f : α → β) (d : Dict α) : Dict β :=
  d.map fun entry => (entry.1, f entry.2)

/-- Applies a function that may fail to each value, in the order of the entries. -/
def mapValuesM {ε : Type} (f : α → Except ε β) : Dict α → Except ε (Dict β)
  | [] => .ok []
  | (k, v) :: rest => do
    let value ← f v
    return (k, value) :: (← mapValuesM f rest)

@[simp] theorem get?_nil (key : String) : get? ([] : Dict α) key = none := rfl

@[simp] theorem get?_cons (k key : String) (v : α) (rest : Dict α) :
    get? ((k, v) :: rest) key = if k = key then some v else get? rest key := rfl

/-- A set name has the value it was set to. -/
theorem get?_insert_self (key : String) (value : α) (d : Dict α) :
    get? (insert key value d) key = some value := by
  induction d with
  | nil => simp [insert]
  | cons entry rest ih =>
    obtain ⟨k, v⟩ := entry
    by_cases hlt : key < k
    · simp [insert, hlt]
    · by_cases heq : key = k
      · simp [insert, heq]
      · simp [insert, hlt, heq, ih, Ne.symm heq]

end Dict

end DocumentTable
