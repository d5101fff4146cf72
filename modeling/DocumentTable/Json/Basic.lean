import DocumentTable.Dict
import DocumentTable.Number.Binary64

/-!
# Documents

The values of documents: null, booleans, numbers, text, arrays and objects. A number is an integer
or a binary64 number; the two kinds stay apart, so that `1` and `1.0` are different values.

## Main definitions

* `Json.Number`: an integer of 64 bits, signed or unsigned, or a finite binary64 number
* `Json`: a document value
* `Json.kind`: the name of a value's kind
* `Document`: the members of an object, in the order of their names
-/

namespace DocumentTable

namespace Json

/-- The integers that documents hold: those of a signed or an unsigned word of 64 bits. -/
def IntegerInRange (n : Int) : Prop :=
  -0x8000000000000000 ≤ n ∧ n < 0x10000000000000000

instance (n : Int) : Decidable (IntegerInRange n) :=
  inferInstanceAs (Decidable (_ ∧ _))

/-- A number of a document. -/
inductive Number where
  | integer (value : Int) (inRange : IntegerInRange value)
  | float (value : Binary64)
  deriving DecidableEq

namespace Number

/-- The integer as a number, when it is in range. -/
def ofInt? (n : Int) : Option Number :=
  if h : IntegerInRange n then some (integer n h) else none

/-- The text of a number. -/
def text : Number → String
  | integer n _ => toString n
  | float x => x.text .document

/-- The text of a number without an exponent and without a fraction that says nothing. -/
def plainText : Number → String
  | integer n _ => toString n
  | float x => x.text .plain

/-- The number as one of the floating point kind. -/
def toFloat : Number → Number
  | integer n h =>
    match Binary64.nearest? (n < 0) n.natAbs 1 with
    | some x => float x
    | none => integer n h
  | float x => float x

/-- Whether the number is of the floating point kind. -/
def isFloat : Number → Bool
  | integer _ _ => false
  | float _ => true

/-- The number that a numeral stands for: an integer where it is one in range, or else the nearest
binary64 number. Texts beyond the largest finite number stand for none. -/
def ofText? (s : String) : Option Number :=
  match (readInteger s.toList).bind ofInt? with
  | some n => some n
  | none =>
    match Binary64.Reading.ofText? s with
    | some (.finite x) => some (float x)
    | _ => none

end Number

end Json

/-- A document value. The members of an object are in the order of their names. -/
inductive Json where
  | null
  | bool (value : Bool)
  | number (value : Json.Number)
  | string (value : String)
  | array (items : List Json)
  | object (members : List (String × Json))
  deriving Inhabited

/-- The members of an object. -/
abbrev Document := Dict Json

namespace Json

/-- The name of a value's kind. -/
def kind : Json → String
  | null => "null"
  | bool _ => "bool"
  | number _ => "number"
  | string _ => "string"
  | array _ => "array"
  | object _ => "object"

/-- The integer as a document value; integers out of range become null. -/
def ofInt (n : Int) : Json :=
  match Number.ofInt? n with
  | some value => .number value
  | none => .null

mutual

/-- Whether two values are equal. -/
def beq : Json → Json → Bool
  | null, null => true
  | bool a, bool b => a == b
  | number a, number b => a == b
  | string a, string b => a == b
  | array a, array b => beqItems a b
  | object a, object b => beqMembers a b
  | _, _ => false

/-- Whether two lists of values are equal. -/
def beqItems : List Json → List Json → Bool
  | [], [] => true
  | a :: as, b :: bs => beq a b && beqItems as bs
  | _, _ => false

/-- Whether two lists of members are equal. -/
def beqMembers : List (String × Json) → List (String × Json) → Bool
  | [], [] => true
  | (k, a) :: as, (l, b) :: bs => k == l && beq a b && beqMembers as bs
  | _, _ => false

end

instance : BEq Json := ⟨beq⟩

mutual

private theorem beq_iff : (a b : Json) → (beq a b = true ↔ a = b)
  | null, b => by cases b <;> simp [beq]
  | bool a, b => by cases b <;> simp [beq]
  | number a, b => by cases b <;> simp [beq]
  | string a, b => by cases b <;> simp [beq]
  | array a, b => by cases b <;> simp [beq, beqItems_iff a]
  | object a, b => by cases b <;> simp [beq, beqMembers_iff a]

private theorem beqItems_iff : (a b : List Json) → (beqItems a b = true ↔ a = b)
  | [], b => by cases b <;> simp [beqItems]
  | a :: as, b => by cases b <;> simp [beqItems, beq_iff a, beqItems_iff as]

private theorem beqMembers_iff : (a b : List (String × Json)) → (beqMembers a b = true ↔ a = b)
  | [], b => by cases b <;> simp [beqMembers]
  | (k, a) :: as, b => by
    cases b with
    | nil => simp [beqMembers]
    | cons entry bs =>
      obtain ⟨l, b⟩ := entry
      simp [beqMembers, beq_iff a, beqMembers_iff as, and_assoc]

end

instance : LawfulBEq Json where
  eq_of_beq h := (beq_iff _ _).1 h
  rfl := (beq_iff _ _).2 rfl

instance : DecidableEq Json := fun a b =>
  decidable_of_iff (beq a b = true) (beq_iff a b)

end Json

end DocumentTable
