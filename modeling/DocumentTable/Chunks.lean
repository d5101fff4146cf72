/-!
# Chunks

A list in parts of bounded size, for services that take only so much at a time.

## Main definitions

* `chunks`: the parts of a list

## Main results

* `flatten_chunks`: the parts joined are the list
* `mem_chunks`: no part is empty, and none is larger than allowed
-/

namespace DocumentTable

variable {α : Type}

/-- The parts of a list, in order, each of the given size but for the last one, which may be
smaller. -/
def chunks (size : Nat) (l : List α) : List (List α) :=
  if _h : l = [] ∨ size = 0 then []
  else l.take size :: chunks size (l.drop size)
termination_by l.length
decreasing_by
  have hl : 0 < l.length := List.length_pos_iff.2 fun hl => _h (.inl hl)
  have hs : size ≠ 0 := fun hs => _h (.inr hs)
  rw [List.length_drop]
  omega

@[simp] theorem chunks_nil (size : Nat) : chunks size ([] : List α) = [] := by
  rw [chunks, dif_pos (.inl rfl)]

/-- A list that is not empty begins with a part of it. -/
theorem chunks_of_ne_nil {size : Nat} {l : List α} (hs : size ≠ 0) (hl : l ≠ []) :
    chunks size l = l.take size :: chunks size (l.drop size) := by
  rw [chunks, dif_neg (not_or.2 ⟨hl, hs⟩)]

/-- The parts of a list joined are the list. -/
theorem flatten_chunks {size : Nat} (hs : size ≠ 0) (l : List α) :
    (chunks size l).flatten = l := by
  fun_induction chunks size l with
  | case1 l done => rw [done.resolve_right hs, List.flatten_nil]
  | case2 l more ih => rw [List.flatten_cons, ih, List.take_append_drop]

/-- No part is empty, and none is larger than allowed. -/
theorem mem_chunks {size : Nat} {l part : List α} (mem : part ∈ chunks size l) :
    part ≠ [] ∧ part.length ≤ size := by
  fun_induction chunks size l with
  | case1 l done => cases mem
  | case2 l more ih =>
      rcases List.mem_cons.1 mem with rfl | mem
      · rw [not_or] at more
        exact ⟨fun empty => (List.take_eq_nil_iff.1 empty).elim more.2 more.1,
          List.length_take_le _ _⟩
      · exact ih mem

end DocumentTable
