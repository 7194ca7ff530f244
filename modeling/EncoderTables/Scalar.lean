import EncoderTables.Text.Quoted

/-!
# Plain values

Descriptions give literals, settings and enumerator values as plain values: numbers,
truth values, texts or nothing at all. A plain value has two texts: the one put into
generated code and messages, and the quoted one that shows its structure. Truth values
count as the numbers zero and one wherever numbers are compared. A number with decimal
places is no whole number, even if all its places are zero. Named values count as one
plain value, of which only the texts are kept.
-/

namespace EncoderTables

/-- A value that has no structure of its own. -/
inductive Scalar where
  | number (value : Int)
  | decimal (mantissa : Int) (places : Nat)
  | truth (value : Bool)
  | text (value : String)
  | record (entries : List (String × String))
  | absent
  deriving DecidableEq, Repr, Inhabited

namespace Scalar

/-- A natural number, if there is one. -/
def ofNat? : Option Nat → Scalar
  | some value => number value
  | none => absent

/-- The whole number that a value counts as. -/
def whole? : Scalar → Option Int
  | number value => some value
  | truth value => some (if value then 1 else 0)
  | decimal .. | text _ | record _ | absent => none

/-- The text of a value inside generated code and messages. -/
def plain : Scalar → String
  | number value => toString value
  | decimal mantissa places => Text.decimal mantissa places
  | truth true => "True"
  | truth false => "False"
  | text value => value
  | record entries =>
    "\x7b" ++ ", ".intercalate (entries.map fun entry => Text.quoted entry.1 ++ ": " ++ entry.2) ++
      "\x7d"
  | absent => "None"

/-- The text of a value that shows whether it is a name or a number. -/
def shown : Scalar → String
  | text value => Text.quoted value
  | value => value.plain

/-- The name of the kind of value. -/
def kind : Scalar → String
  | number _ => "int"
  | decimal .. => "float"
  | truth _ => "bool"
  | text _ => "str"
  | record _ => "dict"
  | absent => "NoneType"

/-- The number that a value counts as, and how many of its digits are decimal places. -/
def ratio? : Scalar → Option (Int × Nat)
  | decimal mantissa places => some (mantissa, places)
  | value => value.whole?.map fun number => (number, 0)

/-- A number ten times as great for each of a number of places. -/
def shifted : (places : Nat) → Int → Int
  | 0, value => value
  | places + 1, value => 10 * shifted places value

/-- The product of a value that counts as a number with a whole number. -/
def times? (factor : Int) : Scalar → Option Scalar
  | decimal mantissa places => some (decimal (factor * mantissa) places)
  | value => value.whole?.map fun number => Scalar.number (factor * number)

/-- The order of two values that count as numbers. -/
def atMost? (left right : Scalar) : Option Bool := do
  let (a, places) ← left.ratio?
  let (b, otherPlaces) ← right.ratio?
  return shifted otherPlaces a ≤ shifted places b

/-- Equality of values, in which truth values count as numbers. -/
def same (left right : Scalar) : Bool :=
  match left.ratio?, right.ratio? with
  | some (a, places), some (b, otherPlaces) => shifted otherPlaces a == shifted places b
  | none, none => left == right
  | _, _ => false

/-- Absence, zero, falsehood and what is empty count as no value given. -/
def isTrue : Scalar → Bool
  | number value => value != 0
  | decimal mantissa _ => mantissa != 0
  | truth value => value
  | text value => value != ""
  | record entries => !entries.isEmpty
  | absent => false

/-- Whether a value can be looked up by its content: named values can be added to. -/
def isFixed : Scalar → Bool
  | record _ => false
  | _ => true

end Scalar

end EncoderTables
