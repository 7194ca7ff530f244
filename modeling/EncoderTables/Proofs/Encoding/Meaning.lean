import EncoderTables.Generator.Body
import Mathlib.Data.Int.Bitwise

/-!
# What an encoding does

The parameters of an instruction are fields of a structure, some of which may be unspecified.
Under given values of them an expression has a value, and actions append bytes or abort. A write
appends its value with the lowest byte first. A packed write puts its fields side by side, the
most significant one first, each masked to its own width. Values are whole numbers of any size.

What the functions compute that expressions apply is not part of an encoding; it is given along
with the values of the parameters.
-/

namespace EncoderTables

/-- The values of parameters, and which of them have been specified. -/
structure Assignment where
  value : String → Int
  specified : String → Bool

/-- What the functions compute that expressions apply, by name. -/
abbrev Functions := String → Int → Int

/-- Why actions append no bytes: they abort, or they are no actions that have a meaning. -/
inductive Stop where
  | aborted (message : String)
  | meaningless
  deriving DecidableEq, Repr

namespace Node

/-- The number that stands for a truth value. -/
def truth (holds : Bool) : Int := if holds then 1 else 0

/-- The operators of two numbers. There are no shifts by a negative distance. -/
def binaryOperators : List (String × (Int → Int → Option Int)) :=
  [("+", fun a b => some (a + b)), ("-", fun a b => some (a - b)),
   ("*", fun a b => some (a * b)), ("&", fun a b => some (a.land b)),
   ("|", fun a b => some (a.lor b)), ("^", fun a b => some (a.xor b)),
   ("<<", fun a b => if b < 0 then none else some (a * 2 ^ b.toNat)),
   (">>", fun a b => if b < 0 then none else some (a / 2 ^ b.toNat)),
   ("==", fun a b => some (truth (a = b))), ("!=", fun a b => some (truth (a ≠ b))),
   ("<", fun a b => some (truth (a < b))), ("<=", fun a b => some (truth (a ≤ b))),
   (">", fun a b => some (truth (b < a))), (">=", fun a b => some (truth (b ≤ a))),
   ("&&", fun a b => some (truth (a ≠ 0 && b ≠ 0))),
   ("||", fun a b => some (truth (a ≠ 0 || b ≠ 0)))]

/-- The operators of one number that are no functions. -/
def unaryOperators : List (String × (Int → Int)) :=
  [("!", fun a => truth (a = 0)), ("-", fun a => -a), ("+", id), ("~", fun a => -a - 1)]

/-- The value of an operator of two numbers. -/
def binaryValue (symbol : String) (left right : Int) : Option Int :=
  (binaryOperators.lookup symbol).bind fun operator => operator left right

/-- The value of an operator of one number, or of a function of its name. -/
def unaryValue (functions : Functions) (symbol : String) (value : Int) : Option Int :=
  if Generator.isFunctionName symbol then some (functions symbol value)
  else (unaryOperators.lookup symbol).map (· value)

/-- Whether the first operand of a logical operator decides its value. -/
def decided (symbol : String) (left : Int) : Bool :=
  (symbol == "&&" && left == 0) || (symbol == "||" && left != 0)

variable (functions : Functions) (given : Assignment)

/-- The value of an expression. The second operand of a logical operator is not looked at when
the first one decides. -/
def value? : Node → Option Int
  | literal constant => constant.whole?
  | param name => some (given.value name)
  | isSet name => some (truth (given.specified name))
  | unary symbol inner => (value? inner).bind (unaryValue functions symbol)
  | binary symbol left right =>
    (value? left).bind fun first =>
      if decided symbol first then binaryValue symbol first 0
      else (value? right).bind (binaryValue symbol first)
  | _ => none

/-- The value of an expression in an action. -/
def value (node : Node) : Except Stop Int :=
  match node.value? functions given with
  | some number => .ok number
  | none => .error .meaningless

/-- Fields side by side as one number, the most significant first, each masked to its width. -/
def concatenated : (values : List Int) → (widths : List Nat) → Int
  | value :: values, width :: widths =>
    value % 2 ^ width * 2 ^ widths.sum + concatenated values widths
  | _, _ => 0

/-- The lowest bytes of a number, the lowest first. -/
def littleEndian : (count : Nat) → Int → List UInt8
  | 0, _ => []
  | count + 1, value => UInt8.ofNat (value % 256).toNat :: littleEndian count (value / 256)

/-- The bytes that append a number of bits. -/
def written (size : Int) (value : Int) : List UInt8 := littleEndian (size.toNat / 8) value

mutual

/-- The bytes that an action appends. Of several unordered actions each one is performed, in the
order of the row that their parameter selects from the table of orders. -/
def perform : Node → Except Stop (List UInt8)
  | write inner size => (inner.value functions given).map (written size)
  | packed values sizes => do
    let numbers ← values.mapM (value functions given)
    return written (totalWidth sizes)
      (concatenated numbers (sizes.map fun size => (fieldWidth size).toNat))
  | branch condition taken otherwise => do
    if (← condition.value functions given) ≠ 0 then performAll taken else performAll otherwise
  | abort message => .error (.aborted message)
  | call (routine _ members) => performAll members
  | unordered [single] _ => perform single
  | unordered actions order => do
    let parts := performEach actions
    match (Permutation.orders actions.length)[(given.value order.plain).toNat]? with
    | some row => do
      let bytes ← row.mapM fun place => parts.getD place (.error .meaningless)
      return bytes.flatten
    | none => .error .meaningless
  | _ => .error .meaningless

/-- The bytes that several actions append, one after the other. -/
def performAll : List Node → Except Stop (List UInt8)
  | [] => .ok []
  | node :: rest => do
    let first ← perform node
    return first ++ (← performAll rest)

/-- What each of several actions appends by itself. -/
def performEach : List Node → List (Except Stop (List UInt8))
  | [] => []
  | node :: rest => perform node :: performEach rest

end

section

variable {functions : Functions} {given : Assignment}

/-- What a branch performs. -/
theorem perform_branch_eq (condition : Node) (taken otherwise : List Node) :
    (branch condition taken otherwise).perform functions given = (do
      if (← condition.value functions given) ≠ 0 then performAll functions given taken
      else performAll functions given otherwise) := rfl

/-- What a packed write performs. -/
theorem perform_packed_eq (values : List Node) (sizes : List Scalar) :
    (packed values sizes).perform functions given = (do
      let numbers ← values.mapM (value functions given)
      return written (totalWidth sizes)
        (concatenated numbers (sizes.map fun size => (fieldWidth size).toNat))) := rfl

/-- No actions append nothing. -/
theorem performAll_nil : performAll functions given [] = .ok [] := rfl

/-- What an action and those behind it perform. -/
theorem performAll_cons_eq (node : Node) (rest : List Node) :
    performAll functions given (node :: rest) = (do
      let first ← node.perform functions given
      return first ++ (← performAll functions given rest)) := rfl

/-- Whether a condition holds, if it has a value. -/
def holds? (functions : Functions) (given : Assignment) (node : Node) : Option Bool :=
  (node.value? functions given).map fun number => decide (number ≠ 0)

/-- A natural number as a condition. -/
theorem holds?_natural {node : Node} {number : Nat}
    (known : node.value? functions given = some (number : Int)) :
    node.holds? functions given = some (decide (number ≠ 0)) := by
  simp [holds?, known]

/-- A disjunction of two conditions that have values. -/
theorem holds?_or {left right : Node} {first second : Bool}
    (one : left.holds? functions given = some first)
    (two : right.holds? functions given = some second) :
    (binary "||" left right).holds? functions given = some (first || second) := by
  obtain ⟨a, valued, rfl⟩ := Option.map_eq_some_iff.mp one
  obtain ⟨b, other, rfl⟩ := Option.map_eq_some_iff.mp two
  have operator (x y : Int) : binaryValue "||" x y = some (truth (x ≠ 0 || y ≠ 0)) := rfl
  by_cases zero : a = 0
  · simp [holds?, value?, valued, other, decided, operator, zero, truth]
  · simp [holds?, value?, valued, decided, operator, zero, truth]

/-- A branch performs the actions of the side that its condition selects. -/
theorem perform_branch (taken otherwise : List Node) {condition : Node} {holds : Bool}
    (known : condition.holds? functions given = some holds) :
    (branch condition taken otherwise).perform functions given =
      if holds then performAll functions given taken else performAll functions given otherwise := by
  obtain ⟨number, valued, rfl⟩ := Option.map_eq_some_iff.mp known
  have found : condition.value functions given = .ok number := by simp [value, valued]
  by_cases zero : number = 0 <;> simp [perform_branch_eq, found, zero, bind, Except.bind]

/-- The values of several expressions. -/
theorem mapM_value {nodes : List Node} {numbers : List Int}
    (known : nodes.mapM (value? functions given) = some numbers) :
    nodes.mapM (value functions given) = .ok numbers := by
  induction nodes generalizing numbers with
  | nil =>
    obtain rfl : [] = numbers := by simpa using known
    rfl
  | cons node rest induction =>
    rw [List.mapM_cons] at known ⊢
    obtain ⟨first, valued, more⟩ := Option.bind_eq_some_iff.mp known
    obtain ⟨others, remaining, equal⟩ := Option.bind_eq_some_iff.mp more
    obtain rfl : first :: others = numbers := by simpa using equal
    have found : node.value functions given = .ok first := by simp [value, valued]
    rw [found, induction remaining]
    rfl

/-- A packed write of fields that have values. -/
theorem perform_packed {values : List Node} {sizes : List Scalar} {numbers : List Int}
    (known : values.mapM (value? functions given) = some numbers) :
    (packed values sizes).perform functions given =
      .ok (written (totalWidth sizes)
        (concatenated numbers (sizes.map fun size => (fieldWidth size).toNat))) := by
  rw [perform_packed_eq, mapM_value known]
  rfl

/-- Calling a routine performs its actions. -/
theorem perform_routine (name : String) (members : List Node) :
    (call (routine name members)).perform functions given =
      performAll functions given members := rfl

/-- Nothing else is performed when an action does not succeed. -/
theorem performAll_stopped {node : Node} {stop : Stop} (rest : List Node)
    (one : node.perform functions given = .error stop) :
    performAll functions given (node :: rest) = .error stop := by
  rw [performAll_cons_eq, one]
  rfl

/-- Nothing is left of a first action when the second one does not succeed. -/
theorem performAll_stopped_second {first second : Node} {bytes : List UInt8} {stop : Stop}
    (one : first.perform functions given = .ok bytes)
    (two : second.perform functions given = .error stop) :
    performAll functions given [first, second] = .error stop := by
  rw [performAll_cons_eq, one, performAll_stopped [] two]
  rfl

/-- An action that writes nothing changes nothing. -/
theorem performAll_silent {node : Node} (rest : List Node)
    (one : node.perform functions given = .ok []) :
    performAll functions given (node :: rest) = performAll functions given rest := by
  rw [performAll_cons_eq, one]
  cases performAll functions given rest <;> rfl

/-- Actions that are performed one after the other. -/
theorem performAll_cons {node : Node} {rest : List Node} {first others : List UInt8}
    (one : node.perform functions given = .ok first)
    (more : performAll functions given rest = .ok others) :
    performAll functions given (node :: rest) = .ok (first ++ others) := by
  rw [performAll_cons_eq, one, more]
  rfl

/-- A single action. -/
theorem performAll_single (node : Node) :
    performAll functions given [node] = node.perform functions given := by
  cases done : node.perform functions given <;>
    simp [performAll_cons_eq, performAll_nil, done, bind, Except.bind, pure, Except.pure]

/-- A branch on whether a parameter has been specified. -/
theorem perform_isSet (parameter : String) (taken otherwise : List Node) :
    (branch (isSet parameter) taken otherwise).perform functions given =
      if given.specified parameter then performAll functions given taken
      else performAll functions given otherwise := by
  have known : (isSet parameter).holds? functions given = some (given.specified parameter) := by
    cases set : given.specified parameter <;> simp [holds?, value?, truth, set]
  exact perform_branch _ _ known

/-- As many bytes are written as were asked for. -/
theorem length_littleEndian (count : Nat) (value : Int) :
    (littleEndian count value).length = count := by
  induction count generalizing value with
  | zero => rfl
  | succ count induction => simp [littleEndian, induction]

end

end Node

end EncoderTables
