import DocumentTable.Condition.Clause
import DocumentTable.Proofs.Numeral
import Mathlib.Data.List.SplitBy

/-!
# Tokens of expressions

The service reads the text of an expression as tokens: words, references to names and to values,
comparisons, and single marks. A text is cut wherever two characters next to each other do not
belong to one token, so every token is as long as it can be.

## Main definitions

* `Keyword`, `Token`: the tokens
* `joins`: whether two characters next to each other belong to one token
* `tokens`: the tokens of a text
* `nameRefs`, `valueRefs`: the references in a text

## Main results

* `tokens_fence`: tokens do not reach across a fence, a text that begins and ends with separators
* `tokens_nameText`, `tokens_valueText`: the text of a placeholder is one reference

## Design notes

Keywords are read in either case, as the service does. A reference is kept with its text, since that
is what a request maps to a name or to a value.
-/

namespace DocumentTable

/-- A word with a meaning of its own in expressions. -/
inductive Keyword where
  | and
  | or
  | not
  | between
  | oneOf
  | set
  | remove
  deriving DecidableEq, Repr

/-- The keyword with the given letters, which are in upper case. -/
def Keyword.ofLetters? : List Char → Option Keyword
  | ['A', 'N', 'D'] => some and
  | ['O', 'R'] => some or
  | ['N', 'O', 'T'] => some not
  | ['B', 'E', 'T', 'W', 'E', 'E', 'N'] => some between
  | ['I', 'N'] => some oneOf
  | ['S', 'E', 'T'] => some set
  | ['R', 'E', 'M', 'O', 'V', 'E'] => some remove
  | _ => none

/-- The keyword of a combination. -/
def LogicalOp.keyword : LogicalOp → Keyword
  | and => .and
  | or => .or

/-- A token of an expression. -/
inductive Token where
  | keyword (k : Keyword)
  /-- A word that is no keyword. -/
  | word (letters : List Char)
  /-- A word that starts with a digit. -/
  | numeral (digits : List Char)
  /-- A reference to a name, such as `#attr0`. -/
  | nameRef (text : String)
  /-- A reference to a value, such as `:val1`. -/
  | valueRef (text : String)
  | comparison (op : CompareOp)
  /-- Any other character that is not blank. -/
  | mark (c : Char)
  /-- Comparison characters that are no comparison together. -/
  | stray (text : List Char)
  deriving DecidableEq, Repr

/-! ### Characters -/

/-- The characters of words. -/
def isWordChar (c : Char) : Bool :=
  c.isAlphanum || c = '_'

/-- The characters of comparisons. -/
def isComparisonChar (c : Char) : Bool :=
  c = '<' || c = '=' || c = '>'

/-- The characters that open a reference. -/
def isSigil (c : Char) : Bool :=
  c = '#' || c = ':'

/-- Whether two characters next to each other belong to one token. -/
def joins (a b : Char) : Bool :=
  (isWordChar a || isSigil a) && isWordChar b || isComparisonChar a && isComparisonChar b

/-- Whether a character starts a new token, whatever stands before it. -/
def startsToken (c : Char) : Bool :=
  !isWordChar c && !isComparisonChar c

/-- Whether a character ends a token, whatever stands behind it. -/
def endsToken (c : Char) : Bool :=
  startsToken c && !isSigil c

theorem joins_of_startsToken {a b : Char} (h : startsToken b = true) : joins a b = false := by
  simp only [startsToken, Bool.and_eq_true, Bool.not_eq_true'] at h
  simp [joins, h.1, h.2]

theorem joins_of_endsToken {a b : Char} (h : endsToken a = true) : joins a b = false := by
  simp only [endsToken, startsToken, Bool.and_eq_true, Bool.not_eq_true'] at h
  simp [joins, h.1.1, h.1.2, h.2]

/-! ### Tokens -/

/-- The comparison that is written with the given characters. -/
def Token.ofComparison : List Char → Token
  | ['='] => comparison .eq
  | ['<', '>'] => comparison .ne
  | ['<'] => comparison .lt
  | ['<', '='] => comparison .le
  | ['>'] => comparison .gt
  | ['>', '='] => comparison .ge
  | text => stray text

/-- The keyword or the word with the given letters. -/
def Token.ofLetters (letters : List Char) : Token :=
  match Keyword.ofLetters? (letters.map Char.toUpper) with
  | some k => keyword k
  | none => word letters

/-- The token of characters that belong together; blanks are none. -/
def Token.ofRun : List Char → Option Token
  | [] => none
  | c :: rest =>
    if c.isWhitespace then none
    else if c = '#' then some (nameRef (String.ofList (c :: rest)))
    else if c = ':' then some (valueRef (String.ofList (c :: rest)))
    else if isComparisonChar c then some (ofComparison (c :: rest))
    else if c.isDigit then some (numeral (c :: rest))
    else if isWordChar c then some (ofLetters (c :: rest))
    else some (mark c)

/-- A run that starts with a digit is a numeral. -/
theorem Token.ofRun_of_isDigit {c : Char} {rest : List Char} (h : c.isDigit = true) :
    ofRun (c :: rest) = some (numeral (c :: rest)) := by
  have other : ∀ d : Char, d.isDigit = false → c ≠ d := by
    rintro d hd rfl
    rw [h] at hd
    cases hd
  have blank : c.isWhitespace = false := by
    simp [Char.isWhitespace, other]
  have comparison : isComparisonChar c = false := by
    simp [isComparisonChar, other]
  simp [ofRun, blank, other, comparison, h]

/-- The tokens of a text. -/
def tokens (text : String) : List Token :=
  (text.toList.splitBy joins).filterMap Token.ofRun

/-- The references to names in a list of tokens. -/
def Token.nameRef? : Token → Option String
  | nameRef text => some text
  | _ => none

/-- The references to values in a list of tokens. -/
def Token.valueRef? : Token → Option String
  | valueRef text => some text
  | _ => none

/-- The references to names in a text, in order. -/
def nameRefs (text : String) : List String :=
  (tokens text).filterMap Token.nameRef?

/-- The references to values in a text, in order. -/
def valueRefs (text : String) : List String :=
  (tokens text).filterMap Token.valueRef?

/-! ### Fences -/

/-- Whether no token reaches across a text from either side. -/
def fence (text : String) : Bool :=
  text.toList.head?.all startsToken && text.toList.getLast?.all endsToken

/-- A text that starts a new token is read on its own, whatever stands before it. -/
theorem tokens_append_of_startsToken {a b : String}
    (h : b.toList.head?.all startsToken = true) : tokens (a ++ b) = tokens a ++ tokens b := by
  rw [tokens, String.toList_append, List.splitBy_append, List.filterMap_append, tokens, tokens]
  intro x _ y hy
  exact joins_of_startsToken (by simpa [Option.mem_def.1 hy] using h)

/-- What follows a text that ends its last token is read on its own, whatever it is. -/
theorem tokens_append_of_endsToken {a b : String}
    (h : a.toList.getLast?.all endsToken = true) : tokens (a ++ b) = tokens a ++ tokens b := by
  rw [tokens, String.toList_append, List.splitBy_append, List.filterMap_append, tokens, tokens]
  intro x hx y _
  exact joins_of_endsToken (by simpa [Option.mem_def.1 hx] using h)

/-- A fence and what stands before and behind it are read apart. The separators in expressions are
fences. -/
theorem tokens_fence {a s b : String} (hs : fence s = true) (hne : s ≠ "") :
    tokens (a ++ s ++ b) = tokens a ++ tokens s ++ tokens b := by
  rw [fence, Bool.and_eq_true] at hs
  -- the last character before `b` is that of the fence, since the fence is not empty
  have last : (a ++ s).toList.getLast?.all endsToken = true := by
    have : s.toList ≠ [] := by simpa using hne
    rw [String.toList_append, List.getLast?_append_of_ne_nil _ this]
    exact hs.2
  rw [tokens_append_of_endsToken last, tokens_append_of_startsToken hs.1]

/-! ### References and numerals -/

/-- Characters of a word belong together, also with a sigil before them. -/
theorem isChain_joins {c : Char} {rest : List Char} (hc : (isWordChar c || isSigil c) = true)
    (hrest : rest.all isWordChar = true) :
    (c :: rest).IsChain fun a b => joins a b = true := by
  induction rest generalizing c with
  | nil => exact List.isChain_singleton _
  | cons d rest ih =>
      rw [List.all_cons, Bool.and_eq_true] at hrest
      refine List.isChain_cons_cons.2 ⟨?_, ih (by simp [hrest.1]) hrest.2⟩
      simp [joins, hc, hrest.1]

/-- Characters of a word, also with a sigil before them, are one token, of the kind that its first
character says. -/
theorem tokens_of_toList {text : String} {c : Char} {rest : List Char}
    (h : text.toList = c :: rest) (hc : (isWordChar c || isSigil c) = true)
    (hrest : rest.all isWordChar = true) : tokens text = (Token.ofRun (c :: rest)).toList := by
  rw [tokens, h, List.splitBy_of_isChain (List.cons_ne_nil _ _) (isChain_joins hc hrest),
    List.filterMap_cons, List.filterMap_nil]
  cases Token.ofRun (c :: rest) <;> rfl

/-- The digits of a number are characters of words. -/
theorem all_isWordChar_toDigits (n : Nat) : (Nat.toDigits 10 n).all isWordChar = true := by
  have := all_isDigit_toDigits n
  rw [List.all_eq_true] at this ⊢
  intro c hc
  simp [isWordChar, Char.isAlphanum, this c hc]

theorem NamePlaceholder.toList_text (p : NamePlaceholder) :
    p.text.toList = '#' :: (['a', 't', 't', 'r'] ++ Nat.toDigits 10 p.number) := by
  rw [NamePlaceholder.text, String.toList_append, ← Nat.toList_repr]
  rfl

theorem ValuePlaceholder.toList_text (p : ValuePlaceholder) :
    p.text.toList = ':' :: (['v', 'a', 'l'] ++ Nat.toDigits 10 p.number) := by
  rw [ValuePlaceholder.text, String.toList_append, ← Nat.toList_repr]
  rfl

/-- The text of a name placeholder is one reference, with all of its digits. -/
@[simp] theorem tokens_nameText (p : NamePlaceholder) : tokens p.text = [.nameRef p.text] := by
  have word : (['a', 't', 't', 'r'] ++ Nat.toDigits 10 p.number).all isWordChar = true := by
    rw [List.all_append, all_isWordChar_toDigits]
    rfl
  rw [tokens_of_toList p.toList_text rfl word]
  -- a run that starts with the sigil of names is a reference, whatever its letters are
  show [Token.nameRef (String.ofList _)] = _
  rw [← p.toList_text, String.ofList_toList]

/-- The text of a value placeholder is one reference. -/
@[simp] theorem tokens_valueText (p : ValuePlaceholder) : tokens p.text = [.valueRef p.text] := by
  have word : (['v', 'a', 'l'] ++ Nat.toDigits 10 p.number).all isWordChar = true := by
    rw [List.all_append, all_isWordChar_toDigits]
    rfl
  rw [tokens_of_toList p.toList_text rfl word]
  show [Token.valueRef (String.ofList _)] = _
  rw [← p.toList_text, String.ofList_toList]

/-- The digits of a number are one numeral. -/
@[simp] theorem tokens_toString (n : Nat) :
    tokens (toString n) = [.numeral (Nat.toDigits 10 n)] := by
  have digits : (toString n).toList = Nat.toDigits 10 n := Nat.toList_repr
  have word := all_isWordChar_toDigits n
  have digit := all_isDigit_toDigits n
  -- the kind of a token is told by its first character
  obtain ⟨c, rest, split⟩ := List.exists_cons_of_ne_nil (Nat.toDigits_ne_nil (b := 10) (n := n))
  rw [split, List.all_cons, Bool.and_eq_true] at word digit
  rw [tokens_of_toList (digits.trans split) (by simp [word.1]) word.2,
    Token.ofRun_of_isDigit digit.1, split]
  rfl

/-- Placeholders of names are told apart by their texts, since their numbers are written in one way.
-/
theorem NamePlaceholder.text_injective : Function.Injective NamePlaceholder.text := by
  intro p q h
  have := congrArg String.toList h
  rw [p.toList_text, q.toList_text, List.cons_inj_right, List.append_cancel_left_eq] at this
  exact congrArg NamePlaceholder.mk (toDigits_inj this)

/-- Placeholders of values are told apart by their texts, since their numbers are written in one
way. -/
theorem ValuePlaceholder.text_injective : Function.Injective ValuePlaceholder.text := by
  intro p q h
  have := congrArg String.toList h
  rw [p.toList_text, q.toList_text, List.cons_inj_right, List.append_cancel_left_eq] at this
  exact congrArg ValuePlaceholder.mk (toDigits_inj this)

end DocumentTable
