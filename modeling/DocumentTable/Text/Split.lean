/-!
# Splitting text at a separator

## Main definitions

* `splitOnce?`: the text before and after the first occurrence of a separator
* `splitAll`: the pieces between all occurrences, one more than there are separators
* `dropLeading`: a text without the repetitions of a word at its start

## Main results

* `splitAll_pieces`: splitting inverts joining, where the pieces lack a character of the separator
* `exists_pieces`: every text is joined from such pieces
-/

namespace DocumentTable

/-- The parts of a text before and after the first occurrence of a separator. -/
def splitOnce? (separator : List Char) : List Char → Option (List Char × List Char)
  | [] => if separator.isEmpty then some ([], []) else none
  | c :: rest =>
    if separator.isPrefixOf (c :: rest) then some ([], (c :: rest).drop separator.length)
    else (splitOnce? separator rest).map fun (before, after) => (c :: before, after)

/-- The pieces of a text between separators, looking for at most `fuel` separators. -/
def splitUpTo (separator : List Char) : (fuel : Nat) → List Char → List (List Char)
  | 0, text => [text]
  | fuel + 1, text =>
    match splitOnce? separator text with
    | some (before, after) => before :: splitUpTo separator fuel after
    | none => [text]

/-- The pieces of a text between all occurrences of a separator, which is not empty. -/
def splitAll (separator text : List Char) : List (List Char) :=
  splitUpTo separator text.length text

/-- A text without a word at its start, when it starts with it. -/
def stripLeading? (word text : List Char) : Option (List Char) :=
  if word.isPrefixOf text then some (text.drop word.length) else none

/-- A text without any repetition of a word at its start, dropping at most `fuel` of them. -/
def dropLeadingUpTo (word : List Char) : (fuel : Nat) → List Char → List Char
  | 0, text => text
  | fuel + 1, text =>
    match stripLeading? word text with
    | some rest => dropLeadingUpTo word fuel rest
    | none => text

/-- A text without any repetition of a word at its start. The word is not empty. -/
def dropLeading (word text : List Char) : List Char :=
  dropLeadingUpTo word text.length text

/-! ### Separators with a character that the text between them lacks -/

section Separators

variable {separator text before : List Char} {c : Char}

/-- A text that lacks a character of the separator has no separator. -/
theorem splitOnce?_eq_none (mem : c ∈ separator) (absent : c ∉ text) :
    splitOnce? separator text = none := by
  induction text with
  | nil =>
      rw [splitOnce?, if_neg]
      rw [List.isEmpty_iff]
      rintro rfl
      cases mem
  | cons d rest ih =>
      have unlike : ¬ separator.isPrefixOf (d :: rest) = true :=
        fun isPrefix => absent ((List.isPrefixOf_iff_prefix.1 isPrefix).subset mem)
      rw [splitOnce?, if_neg unlike, ih (mt (List.mem_cons_of_mem d) absent)]
      rfl

/-- The first separator is the one before which a character of it is missing. -/
theorem splitOnce?_append (mem : c ∈ separator) (absent : c ∉ before) (after : List Char) :
    splitOnce? separator (before ++ (separator ++ after)) = some (before, after) := by
  obtain ⟨lead, tail, rfl, first⟩ := List.eq_append_cons_of_mem mem
  induction before with
  | nil =>
      have isPrefix : (lead ++ c :: tail).isPrefixOf (lead ++ c :: tail ++ after) = true :=
        List.isPrefixOf_iff_prefix.2 (List.prefix_append _ _)
      cases whole : lead ++ c :: tail ++ after with
      | nil => simp at whole
      | cons d rest =>
          rw [List.nil_append, splitOnce?, ← whole, if_pos isPrefix, List.drop_left]
  | cons d rest ih =>
      -- a separator that starts earlier has the character where the text still lacks it
      have unlike : ¬ (lead ++ c :: tail).isPrefixOf
          (d :: rest ++ (lead ++ c :: tail ++ after)) = true := by
        intro isPrefix
        have whole : lead ++ [c] ++ tail <+: d :: rest ++ lead ++ (c :: tail ++ after) := by
          simpa using List.isPrefixOf_iff_prefix.1 isPrefix
        have early : lead ++ [c] <+: d :: rest ++ lead :=
          List.prefix_of_prefix_length_le ((List.prefix_append _ _).trans whole)
            (List.prefix_append _ _) (by simp)
        rcases List.mem_append.1 (early.subset List.mem_concat_self) with mem | mem
        · exact absent mem
        · exact first mem
      rw [List.cons_append, splitOnce?, ← List.cons_append, if_neg unlike,
        ih (mt (List.mem_cons_of_mem d) absent)]
      rfl

theorem splitUpTo_pieces (mem : c ∈ separator) {fuel : Nat} {first : List Char}
    {rest : List (List Char)} (hfirst : c ∉ first) (hrest : ∀ piece ∈ rest, c ∉ piece)
    (hfuel : rest.length ≤ fuel) :
    splitUpTo separator fuel (first ++ rest.flatMap (separator ++ ·)) = first :: rest := by
  induction rest generalizing fuel first with
  | nil =>
      rw [List.flatMap_nil, List.append_nil]
      cases fuel with
      | zero => rfl
      | succ fuel => rw [splitUpTo, splitOnce?_eq_none mem hfirst]
  | cons second rest ih =>
      cases fuel with
      | zero => cases hfuel
      | succ fuel =>
          rw [List.forall_mem_cons] at hrest
          rw [List.flatMap_cons, List.append_assoc, splitUpTo, splitOnce?_append mem hfirst]
          exact congrArg (first :: ·) (ih hrest.1 hrest.2 (Nat.le_of_succ_le_succ hfuel))

/-- Pieces that lack a character of the separator are found again when the separator stands between
them. -/
theorem splitAll_pieces (mem : c ∈ separator) {first : List Char} {rest : List (List Char)}
    (hfirst : c ∉ first) (hrest : ∀ piece ∈ rest, c ∉ piece) :
    splitAll separator (first ++ rest.flatMap (separator ++ ·)) = first :: rest := by
  apply splitUpTo_pieces mem hfirst hrest
  rw [List.length_append]
  refine Nat.le_trans ?_ (Nat.le_add_left _ _)
  have positive := List.length_pos_of_mem mem
  induction rest with
  | nil => exact Nat.zero_le _
  | cons second rest ih =>
      rw [List.forall_mem_cons] at hrest
      rw [List.flatMap_cons, List.length_append, List.length_append, List.length_cons]
      have := ih hrest.2
      omega

/-- The first occurrence of a character is the one before which it is missing. -/
theorem splitOnce?_singleton_eq_some {after : List Char} :
    splitOnce? [c] text = some (before, after) ↔ text = before ++ c :: after ∧ c ∉ before := by
  have mem : c ∈ [c] := List.mem_singleton_self c
  constructor
  · intro found
    by_cases occurs : c ∈ text
    · obtain ⟨front, back, rfl, absent⟩ := List.eq_append_cons_of_mem occurs
      have split := splitOnce?_append mem absent back
      rw [List.singleton_append, found] at split
      cases split
      exact ⟨rfl, absent⟩
    · rw [splitOnce?_eq_none mem occurs] at found
      cases found
  · rintro ⟨rfl, absent⟩
    exact splitOnce?_append mem absent after

/-- Every text is made of pieces that lack a character, with that character between them. -/
theorem exists_pieces (c : Char) (text : List Char) :
    ∃ (first : List Char) (rest : List (List Char)),
      text = first ++ rest.flatMap ([c] ++ ·) ∧ c ∉ first ∧ ∀ piece ∈ rest, c ∉ piece := by
  induction text with
  | nil => exact ⟨[], [], rfl, List.not_mem_nil, List.forall_mem_nil _⟩
  | cons d text ih =>
      obtain ⟨first, rest, rfl, absent, others⟩ := ih
      by_cases same : d = c
      · subst same
        exact ⟨[], first :: rest, rfl, List.not_mem_nil, List.forall_mem_cons.2 ⟨absent, others⟩⟩
      · refine ⟨d :: first, rest, rfl, ?_, others⟩
        rw [List.mem_cons, not_or]
        exact ⟨Ne.symm same, absent⟩

/-- A word that a text lacks a character of does not start the text. -/
theorem stripLeading?_eq_none (mem : c ∈ separator) (absent : c ∉ text) :
    stripLeading? separator text = none := by
  rw [stripLeading?, if_neg]
  exact fun isPrefix => absent ((List.isPrefixOf_iff_prefix.1 isPrefix).subset mem)

theorem stripLeading?_append (word text : List Char) :
    stripLeading? word (word ++ text) = some text := by
  rw [stripLeading?, if_pos (List.isPrefixOf_iff_prefix.2 (List.prefix_append _ _)),
    List.drop_left]

/-- A word is dropped once when the text behind it lacks a character of it. -/
theorem dropLeading_append {word : List Char} (mem : c ∈ word) (absent : c ∉ text) :
    dropLeading word (word ++ text) = text := by
  have ends (fuel : Nat) : dropLeadingUpTo word fuel text = text := by
    cases fuel with
    | zero => rfl
    | succ fuel => rw [dropLeadingUpTo, stripLeading?_eq_none mem absent]
  obtain ⟨d, rest, rfl⟩ := List.exists_cons_of_ne_nil (List.ne_nil_of_mem mem)
  rw [dropLeading, List.cons_append, List.length_cons, dropLeadingUpTo, ← List.cons_append,
    stripLeading?_append]
  exact ends _

end Separators

end DocumentTable
