import EncoderTables.Failure
import EncoderTables.Scalar

/-!
# Encoding nodes

An encoding is a tree of actions and of the expressions in them. Actions write bytes,
branch, abort, call shared routines or leave the order of some actions to a parameter.
A description may also hold plain values and lists where no node belongs; they stay in
the tree and are refused only when code is made of them. In the place of an expression
they are constants. Constructors that can be given ill-formed parts check them.

Equal nodes are shared, so nodes are looked up by their content. A node with a list in the
place of a node inside it has no fixed content and cannot be looked up.
-/

namespace EncoderTables

/-- A node of an encoding, or a value that stands in its place. -/
inductive Node where
  /-- A plain value that is no expression. -/
  | bare (value : Scalar)
  /-- A list that stands in the place of a node. -/
  | group (items : List Node)
  /-- A constant. -/
  | literal (value : Scalar)
  /-- A list that stands in the place of an expression. -/
  | literalList (items : List Node)
  /-- The value of a parameter. -/
  | param (name : String)
  /-- Whether an optional parameter has been specified. -/
  | isSet (name : String)
  /-- A unary operator, or a function applied to its operand. -/
  | unary (symbol : String) (operand : Node)
  /-- A binary operator. -/
  | binary (symbol : String) (left right : Node)
  /-- Append a value of the given number of bits. -/
  | write (value : Node) (size : Int)
  /-- Append values packed into one number, most significant first, each masked to
  its own width. -/
  | packed (values : List Node) (sizes : List Scalar)
  /-- Perform one of two action lists. -/
  | branch (condition : Node) (actions otherwise : List Node)
  /-- Abort: the parameters cannot be encoded. -/
  | abort (message : String)
  /-- A shared routine. Its name documents the generated code and nothing else. -/
  | routine (name : String) (actions : List Node)
  /-- Perform a shared routine. -/
  | call (routine : Node)
  /-- Perform actions in the order that a parameter selects. The name of the parameter is
  given as a plain value. -/
  | unordered (actions : List Node) (order : Scalar)
  deriving Inhabited

namespace Node

/-- A plain value or a list in the place of an expression is a constant. -/
def operand : Node → Node
  | bare value => literal value
  | group items => literalList items
  | node => node

/-- A list stands for its members, any other node for itself. -/
def actions : Node → List Node
  | group items => items
  | node => [node]

/-- A text between parentheses; a single member is followed by a comma. -/
def tuple : List String → String
  | [member] => "(" ++ member ++ ",)"
  | members => "(" ++ ", ".intercalate members ++ ")"

mutual

/-- The text that shows a node with all its parts. It omits the names of routines, so
equal nodes have equal texts. -/
def shown : Node → String
  | bare value => value.shown
  | group items => "[" ++ ", ".intercalate (shownAll items) ++ "]"
  | literal value => "Literal" ++ tuple [Text.quoted value.kind, value.shown]
  | literalList items =>
    "Literal" ++ tuple [Text.quoted "list", "[" ++ ", ".intercalate (shownAll items) ++ "]"]
  | param name => "Param" ++ tuple [Text.quoted name]
  | isSet name => "IsSet" ++ tuple [Text.quoted name]
  | unary symbol operand => "UnaryOp" ++ tuple [Text.quoted symbol, operand.shown]
  | binary symbol left right =>
    "BinaryOp" ++ tuple [Text.quoted symbol, left.shown, right.shown]
  | write value size => "Write" ++ tuple [value.shown, toString size]
  | packed values sizes =>
    "Write" ++ tuple [tuple (shownAll values), tuple (sizes.map Scalar.shown)]
  | branch condition actions otherwise =>
    "If" ++ tuple [condition.shown, tuple (shownAll actions), tuple (shownAll otherwise)]
  | abort message => "Error" ++ tuple [Text.quoted message]
  | routine _ actions => "Routine" ++ tuple (shownAll actions)
  | call target => "Call" ++ tuple [target.shown]
  | unordered actions order =>
    "UnorderedWrites" ++ tuple [tuple (shownAll actions), order.shown]

/-- The texts of a list of nodes. -/
def shownAll : List Node → List String
  | [] => []
  | node :: nodes => node.shown :: shownAll nodes

end

/-- The text of a node inside a message; only bare texts differ from the shown form. -/
def plain : Node → String
  | bare value => value.plain
  | node => node.shown

mutual

/-- Equality of nodes by content. The names of routines do not count, so structurally
equal routines are one routine. -/
def same : Node → Node → Bool
  | bare a, bare b => a.same b
  | group as, group bs => sameAll as bs
  | literal a, literal b => a == b
  | literalList as, literalList bs => sameAll as bs
  | param a, param b => a == b
  | isSet a, isSet b => a == b
  | unary s a, unary t b => s == t && same a b
  | binary s a c, binary t b d => s == t && same a b && same c d
  | write a m, write b n => same a b && m == n
  | packed as ms, packed bs ns =>
    sameAll as bs && ms.map Scalar.whole? == ns.map Scalar.whole?
  | branch a cs es, branch b ds fs => same a b && sameAll cs ds && sameAll es fs
  | abort a, abort b => a == b
  | routine _ as, routine _ bs => sameAll as bs
  | call a, call b => same a b
  | unordered as o, unordered bs p => sameAll as bs && o == p
  | _, _ => false

/-- Equality of lists of nodes, member by member. -/
def sameAll : List Node → List Node → Bool
  | [], [] => true
  | a :: as, b :: bs => same a b && sameAll as bs
  | _, _ => false

end

instance : BEq Node := ⟨same⟩

mutual

/-- Whether a node can be looked up by its content: no list may stand in the place of a
node anywhere in it. -/
def isFixed : Node → Bool
  | bare value | literal value => value.isFixed
  | param _ | isSet _ | abort _ => true
  | group _ | literalList _ => false
  | unary _ inner => isFixed inner
  | binary _ left right => isFixed left && isFixed right
  | write value _ => isFixed value
  | packed values _ => areFixed values
  | branch condition taken otherwise =>
    isFixed condition && areFixed taken && areFixed otherwise
  | routine _ members => areFixed members
  | call target => isFixed target
  | unordered members _ => areFixed members

/-- Whether several nodes can be looked up by their content. -/
def areFixed : List Node → Bool
  | [] => true
  | node :: rest => isFixed node && areFixed rest

end

/-- Whether a node can be a key of a ledger. A list that is a key stands for its members. -/
def isKey : Node → Bool
  | group items => areFixed items
  | node => node.isFixed

/-- The numbers of bits that a write can have in total. -/
def writeSizes : List Int := [8, 16, 32, 64]

/-- The number of bits of a field, given as a plain value that counts as a number. -/
def fieldWidth (size : Scalar) : Int := size.whole?.getD 0

/-- The number of bits that fields of the given sizes have in total. -/
def totalWidth (sizes : List Scalar) : Int := (sizes.map fieldWidth).foldr (· + ·) 0

/-- The sizes of a packed write must be numbers. -/
def sizes? : List Node → Except Failure (List Scalar)
  | [] => .ok []
  | bare value :: rest =>
    if value.whole?.isSome then return value :: (← sizes? rest) else refuse .notANumber
  | _ :: _ => refuse .notANumber

/-- A write of one value, or of a list of values that are packed with a list of widths. -/
def write? (value size : Node) : Except Failure Node :=
  match value, size with
  | group values, group sizes =>
    if values.length = sizes.length then do
      let sizes ← sizes? sizes
      if writeSizes.contains (totalWidth sizes) then
        return packed (values.map operand) sizes
      else refuse (.invalidWriteSize (toString (totalWidth sizes)))
    else refuse .unpairedWidths
  | group _, _ => refuse .unpairedWidths
  | value, bare size => match size.whole? with
    | some width =>
      if writeSizes.contains width then .ok (write value.operand width)
      else refuse (.invalidWriteSize size.plain)
    | none => refuse (.invalidWriteSize size.plain)
  | _, size => refuse (.invalidWriteSize size.plain)

/-- Whether a write packs several values. -/
def isPacked : Node → Bool
  | packed .. => true
  | _ => false

/-- The total number of bits of a write. -/
def width? : Node → Option Int
  | write _ size => some size
  | packed _ sizes => some (totalWidth sizes)
  | _ => none

/-- A node whose actions may be performed in any order. -/
def unordered? (writes : List Node) (order : Scalar) : Except Failure Node :=
  if writes.isEmpty then refuse .emptyUnorderedWrites else .ok (unordered writes order)

/-- The parameter that selects an order unless another one is given. -/
def defaultOrder : String := "legacy_prefix_order"

/-- The actions of a routine. -/
def routineActions? : Node → Option (List Node)
  | routine _ actions => some actions
  | _ => none

/-- The name of a routine. -/
def routineName : Node → String
  | routine name _ => name
  | _ => ""

/-- The text of a whole encoding, as it enters the signature. -/
def shownEncoding (encoding : List Node) : String := tuple (shownAll encoding)

/-- The text of a key of a ledger. -/
def keyText : Node → String
  | group items => shownEncoding items
  | node => node.shown

end Node

end EncoderTables
