import EncoderTables.Code.Element
import EncoderTables.Generator.Body

/-!
# Encoding functions

The functions that the bodies make up: one for each instruction, one for each
shared list of unordered writes and one for each shared routine. Each returns whether
the encoding succeeded; a body that can fail ends with the label that failures go to.
-/

namespace EncoderTables.Generator

/-- The type of the encoding context that all functions are given. -/
def contextType : Code.TypeRef := (Code.TypeRef.named (Naming.enumType "enc_ctx")).pointer

/-- The parameter that passes the encoding context. -/
def contextParameter : Code.Element := .parameter ⟨"ctx", contextType⟩

/-- The body of a function: the code of its actions, the report of success and, if the code
can fail, the report of failure. -/
def bodyText (code : String) (canFail : Bool) : String :=
  code ++ "return true;\n" ++ (if canFail then "\nerror:\nreturn false;\n" else "")

/-- An encoding function with the body that its emitter has found. -/
def encodingFunction (comment : Code.Comment) (name code : String)
    (parameters : List Code.Element) (site : Site) : Emit Code.Element := do
  let emission ← get
  let failing := (emission.emitters[site.emitter]?.map (·.canFail)).getD false
  return .function comment name .bool parameters (.plain (bodyText code failing)) true false

/-- The function that encodes an instruction. -/
def instructionFunction (site : Site) (instruction : Instruction) : Emit Code.Element := do
  let code ← actions site instruction.encoding
  encodingFunction .none (Naming.encoder instruction.name) code [contextParameter] site

/-- The function that encodes the instruction an emitter belongs to. -/
def ownFunction (id : Nat) : Emit Code.Element := do
  match (← get).emitters[id]?.bind (·.instruction) with
  | some instruction => instructionFunction (← siteOf id) instruction
  | none => Emit.refuse .formMissing

/-- The cases of a shared function of unordered writes, numbered from an index on. -/
def orderedCases (site : Site) : (index : Nat) → List Node → Emit String
  | _, [] => return ""
  | index, write :: rest => do
    let code ← action site write
    let first := "case " ++ toString index ++ ": \x7b\n" ++ code ++ "break;\n\x7d\n"
    return first ++ (← orderedCases site (index + 1) rest)

/-- The function that performs unordered writes, one after the other as the selected row
of a permutation table says. -/
def orderingFunction (site : Site) (writes : List Node) (id table : String) :
    Emit Code.Element := do
  let cases ← orderedCases site 0 writes
  let code :=
    "for(unsigned i = 0; i < " ++ toString writes.length ++ "; i++) \x7b\n" ++
    "switch(" ++ table ++ "[order][i]) \x7b\n" ++ cases ++
    "default:\nevoasm_assert_not_reached();\n\x7d\n\x7d\n"
  encodingFunction .none (Naming.orderingFunction id) code
    [contextParameter, .parameter ⟨"order", .unsigned⟩] site

/-- The function that performs a routine; the routine's name is its comment. -/
def routineFunction (site : Site) (routine : Node) (id : String) : Emit Code.Element :=
  match routine with
  | .routine name members => do
    let code ← actions site members
    encodingFunction ⟨name, ""⟩ (Naming.routineFunction id) code [contextParameter] site
  | _ => Emit.refuse .formMissing

/-- Emit the functions of shared unordered writes, in the order of their ids from `id`
on. What each reads is merged into its callers. -/
def emitOrderings : (id : Nat) → List (List Node × List Nat) → Emit (List Code.Element)
  | _, [] => return []
  | id, (writes, consumers) :: rest => do
    let emitter ← Emit.newEmitter none (.ofOrdering id)
    let table := Naming.permutationTable (toString writes.length)
    let function ← orderingFunction ⟨emitter, none⟩ writes (toString id) table
    modify fun emission =>
      consumers.foldl (fun emission consumer => emission.mergeFrom emitter consumer) emission
    return function :: (← emitOrderings (id + 1) rest)

/-- Emit the function of one routine and merge what it reads into its callers. From then
on later callers are told at once. -/
def emitRoutine (id : Nat) (routine : Node) : Emit Code.Element := do
  let emitter ← Emit.newEmitter none (.ofRoutine id)
  let function ← routineFunction ⟨emitter, none⟩ routine (toString id)
  modify fun emission =>
    { emission with emitted := Emission.setEmitted id emitter emission.emitted }
  modify fun emission =>
    (emission.callers (.ofRoutine id)).foldl
      (fun emission consumer => emission.mergeFrom emitter consumer) emission
  return function

/-- Emit the functions of all routines from `id` on. Emitting one may request others, so
the table is asked anew each time; it ends when each requested routine is emitted. -/
def emitRoutinesWithin : (fuel : Nat) → (id : Nat) → Emit (List Code.Element)
  | 0, _ => return []
  | fuel + 1, id => do
    match (← get).routines.key? id with
    | none => return []
    | some routine => do
      let function ← emitRoutine id routine
      return function :: (← emitRoutinesWithin fuel (id + 1))

mutual

/-- The number of calls inside a node, at any depth. -/
def callCount : Node → Nat
  | .bare _ | .literal _ | .param _ | .isSet _ | .abort _ => 0
  | .group items | .literalList items => callCounts items
  | .unary _ inner => callCount inner
  | .binary _ left right => callCount left + callCount right
  | .write value _ => callCount value
  | .packed values _ => callCounts values
  | .branch condition taken otherwise =>
    callCount condition + callCounts taken + callCounts otherwise
  | .routine _ members => callCounts members
  | .call routine => 1 + callCount routine
  | .unordered writes _ => callCounts writes

/-- The number of calls inside several nodes. -/
def callCounts : List Node → Nat
  | [] => 0
  | node :: rest => callCount node + callCounts rest

end

/-- Emit the functions of all routines. Each routine that is requested while others are
emitted is called inside one that was requested before, which bounds their number. -/
def emitRoutines : Emit (List Code.Element) := do
  let emission ← get
  let requested := emission.routines.entries.map fun entry => 1 + callCount entry.1
  emitRoutinesWithin (requested.foldr (· + ·) 1) 0

end EncoderTables.Generator
