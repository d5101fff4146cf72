/-!
# Names in ASCII

Names beyond ASCII are written with ASCII letters and digits: first the ASCII characters of the
name, then where each of the others goes, the lowest ones first.

## Main definitions

* `Punycode.encode`: the ASCII form of a name

## Design notes

The others are inserted one after the other. The number of places and code points that an insertion
passes over is written as a numeral whose last digit is known by a threshold; thresholds follow the
size of the numbers written before.
-/

namespace DocumentTable

namespace Punycode

/-- A digit: 26 letters, then the decimal digits. -/
def digit (d : Nat) : Char :=
  if d < 26 then Char.ofNat ('a'.toNat + d) else Char.ofNat ('0'.toNat + (d - 26))

/-- The threshold of the digit at a place, which counts up in steps of 36. -/
def threshold (bias place : Nat) : Nat :=
  max 1 (min 26 (place - bias))

theorem one_le_threshold (bias place : Nat) : 1 ≤ threshold bias place :=
  Nat.le_max_left ..

/-- The digits of a number from a place on. A digit below its threshold is the last one. -/
def numeral (bias place n : Nat) : List Char :=
  let t := threshold bias place
  if n < t then [digit n]
  else digit (t + (n - t) % (36 - t)) :: numeral bias (place + 36) ((n - t) / (36 - t))
termination_by n
decreasing_by
  have := one_le_threshold bias place
  exact Nat.lt_of_le_of_lt (Nat.div_le_self ..) (by omega)

/-- The bias after a number of the given size, which grows by 36 with each division by 35. -/
def biasOf (size grown : Nat) : Nat :=
  if 455 < size then biasOf (size / 35) (grown + 36) else grown + 36 * size / (size + 38)
termination_by size

/-- The bias after an insertion that made a name of `length` characters. -/
def adapt (delta length : Nat) (first : Bool) : Nat :=
  let scaled := if first then delta / 700 else delta / 2
  biasOf (scaled + scaled / length) 0

/-- The state between insertions: how far the next one has moved, the bias, and how many characters
have a place. -/
structure State where
  delta : Nat
  bias : Nat
  placed : Nat
  first : Bool

/-- Passes over the characters of a name, inserting those with a code point. -/
def insertAll (code : Nat) : List Char → State → List Char × State
  | [], s => ([], s)
  | c :: rest, s =>
    if c.toNat < code then insertAll code rest { s with delta := s.delta + 1 }
    else if c.toNat = code then
      let (digits, last) :=
        insertAll code rest
          ⟨0, adapt s.delta (s.placed + 1) s.first, s.placed + 1, false⟩
      (numeral s.bias 36 s.delta ++ digits, last)
    else insertAll code rest s

/-- Inserts the characters with each of some code points, where `next` is the least code point not
looked at. -/
def insertCodes (name : List Char) : (next : Nat) → List Nat → State → List Char
  | _, [], _ => []
  | next, code :: codes, s =>
    let s := { s with delta := s.delta + (code - next) * (s.placed + 1) }
    let (digits, s) := insertAll code name s
    digits ++ insertCodes name (code + 1) codes { s with delta := s.delta + 1 }

/-- A number put into an increasing list, once. -/
def insertOnce (n : Nat) : List Nat → List Nat
  | [] => [n]
  | m :: rest =>
    if n < m then n :: m :: rest
    else if n = m then m :: rest
    else m :: insertOnce n rest

/-- The ASCII form of a name. -/
def encode (name : List Char) : List Char :=
  let basic := name.filter fun c => c.toNat < 0x80
  let codes := (name.map Char.toNat).filter (0x80 ≤ ·)
  basic ++ (if basic.isEmpty then [] else ['-']) ++
    insertCodes name 0x80 (codes.foldr insertOnce []) ⟨0, 72, basic.length, true⟩

end Punycode

end DocumentTable
