import EncoderTables.Bits
import EncoderTables.Generator.Emission
import EncoderTables.Parameters.Kind
import EncoderTables.Text.Letter
import EncoderTables.Text.Number

/-!
# Function bodies

The code of expressions and actions inside the body of one function. Writing it records
in the function's emitter which parameters the body reads and whether it can fail, and it
requests the functions of routines and of unordered writes.
-/

namespace EncoderTables.Generator

/-- The function whose body is written: its emitter, and the instruction it encodes,
if it is not shared. -/
structure Site where
  emitter : Nat
  instruction : Option String
  deriving DecidableEq, Repr

namespace Site

/-- Refuse with a cause; the instruction is named, if there is one. -/
def refuse {α : Type} (site : Site) (cause : Cause) : Emit α := throw ⟨cause, site.instruction⟩

/-- Record the use of a parameter, which must be known. -/
def use (site : Site) (name : String) : Emit Unit :=
  if Parameters.isKnown name then Emit.update site.emitter (·.use name)
  else site.refuse (.unknownParameter name)

/-- Record that the body can fail. -/
def markFailing (site : Site) : Emit Unit :=
  Emit.update site.emitter fun emitter => { emitter with canFail := true }

end Site

/-- The site of the body that an emitter belongs to. -/
def siteOf (id : Nat) : Emit Site := do
  return ⟨id, (← get).emitters[id]?.bind Emitter.owner⟩

/-- A text as a string literal of the generated code. -/
def literalText (text : String) : String :=
  "\"" ++ String.ofList (text.toList.flatMap fun c =>
    if c = '\\' || c = '"' then ['\\', c] else [c]) ++ "\""

/-- The code of a constant. -/
def constantText : Scalar → Except Failure String
  | .truth true => .ok "true"
  | .truth false => .ok "false"
  | .number value =>
    .ok (if value < 0 then toString value else Text.hexadecimal value.toNat)
  | .decimal mantissa places =>
    if mantissa < 0 then .ok (Text.decimal mantissa places) else EncoderTables.refuse .notANumber
  | .text _ | .record _ | .absent => EncoderTables.refuse .notANumber

/-- The code that reads a field of the parameters. -/
def fieldAccess (field : String) : String := "ctx->params." ++ field

/-- An operator that is applied as a function. -/
def isFunctionName (symbol : String) : Bool :=
  match symbol.toList.head? with
  | some c => Text.isLetter c || c == '_'
  | none => false

/-- The code of an expression. -/
def expression (site : Site) : Node → Emit String
  | .literal value => Emit.ofExcept (constantText value)
  | .literalList _ => Emit.refuse .notANumber
  | .param name => do
    site.use name
    return fieldAccess name
  | .isSet name => do
    if !Parameters.isOptional name then site.refuse (.noPresenceFlag name)
    site.use name
    return fieldAccess (Parameters.presenceFlag name)
  | .unary symbol inner => do
    let operand ← expression site inner
    if symbol = "" then Emit.refuse .outOfRange
    if isFunctionName symbol then return symbol ++ "(" ++ operand ++ ")"
    else return "(" ++ symbol ++ operand ++ ")"
  | .binary symbol left right => do
    let first ← expression site left
    let second ← expression site right
    return "(" ++ first ++ " " ++ symbol ++ " " ++ second ++ ")"
  | node => site.refuse (.notExpression node.shown)

/-- The mask of a packed field. -/
def packedMask (width : Int) : Except Failure String :=
  if width < 0 then EncoderTables.refuse .negativeWidth
  else .ok (Text.hexadecimal (Bits.mask width.toNat))

/-- The terms of a packed value. Each field is masked to its width and shifted behind all
later ones; `room` is the number of bits that are left for this field and the later. -/
def packedTerms (site : Site) : (room : Int) → List Node → List Int → Emit (List String)
  | room, value :: values, width :: widths => do
    let code ← expression site value
    let mask ← Emit.ofExcept (packedMask width)
    let shift := room - width
    let term := "((" ++ code ++ " & " ++ mask ++ ") << " ++ toString shift ++ ")"
    return term :: (← packedTerms site shift values widths)
  | _, _, _ => return []

/-- The code that appends a value of a number of bits. -/
def writeText (size : Int) (value : String) : String :=
  "evoasm_x64_enc_ctx_write" ++ toString size ++ "(ctx, " ++ value ++ ");\n"

/-- The statement that leaves a function with a failure. -/
def failText : String := "goto error;\n"

/-- The code that performs a shared function and fails when it does. -/
def callText (function arguments : String) : String :=
  "if(!" ++ function ++ "(" ++ arguments ++ ")) \x7b\n" ++ failText ++ "\x7d\n"

/-- The code that performs unordered writes in the order that a parameter selects. The
parameter's field must be able to select each of the orders. -/
def unorderedText (site : Site) (writes : List Node) (order : String) : Emit String := do
  if site.instruction.isNone then Emit.refuse .nestedUnorderedWrites
  let id ← Emit.requestOrdering writes site.emitter
  let orders := Permutation.count writes.length
  let width ← Emit.ofExcept (Parameters.fieldWidth order false)
  if orders - 1 ≥ Bits.capacity width then site.refuse (.tooManyOrders order orders)
  Emit.update site.emitter (·.impose order (.interval 0 (orders - 1 : Nat)))
  site.use order
  site.markFailing
  return callText (Naming.orderingFunction (toString id)) ("ctx, " ++ fieldAccess order)

mutual

/-- The code of an action. A single unordered write is performed as it stands. -/
def action (site : Site) : Node → Emit String
  | .write value size => do return writeText size (← expression site value)
  | .packed values sizes => do
    let size := Node.totalWidth sizes
    let terms ← packedTerms site size values (sizes.map Node.fieldWidth)
    return writeText size (" | ".intercalate terms)
  | .branch condition taken otherwise => do
    let test ← expression site condition
    let first ← actions site taken
    let head := "if(" ++ test ++ ") \x7b\n" ++ first
    if otherwise.isEmpty then return head ++ "\x7d\n"
    else
      let second ← actions site otherwise
      return head ++ "\x7d else \x7b\n" ++ second ++ "\x7d\n"
  | .abort message => do
    site.markFailing
    return "evoasm_x64_enc_ctx_error(ctx, " ++ literalText message ++ ");\n" ++ failText
  | .call routine => do
    let id ← Emit.requestRoutine routine site.emitter
    site.markFailing
    return callText (Naming.routineFunction (toString id)) "ctx"
  | .unordered [single] _ => action site single
  | .unordered writes order => unorderedText site writes order.plain
  | node => site.refuse (.notAction node.shown)

/-- The code of several actions. -/
def actions (site : Site) : List Node → Emit String
  | [] => return ""
  | node :: rest => do
    let first ← action site node
    return first ++ (← actions site rest)

end

end EncoderTables.Generator
