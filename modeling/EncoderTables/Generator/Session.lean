import EncoderTables.Bits
import EncoderTables.Code.File
import EncoderTables.Generator.Function
import EncoderTables.Generator.ListGraph
import EncoderTables.Generator.Phase
import EncoderTables.Generator.Settings
import EncoderTables.Generator.Tables
import EncoderTables.Parameters.Accessor
import EncoderTables.Parameters.Layout

/-!
# Generator sessions

A session turns an instruction set into generated code, phase by phase. Each phase runs
at most once, after those it needs, and leaves behind elements and the block of code they
make up. What a failed phase has recorded on its way stays.
-/

namespace EncoderTables.Generator

/-- The state of a generator: what it encodes and how, and what it has found out and
produced so far. -/
structure Session where
  set : InstructionSet
  settings : Settings
  emission : Emission
  instructionEmitters : List Nat
  registry : Registry
  elements : List (Phase × List Code.Element)
  blocks : List (Phase × String)
  log : String

/-- A step of a session. -/
abbrev Run := EStateM Failure Session

namespace Session

/-- Add a line to the log of a session that tells what it does. -/
def tell (session : Session) (line : String) : Session :=
  if session.settings.verbose then { session with log := session.log ++ line ++ "\n" }
  else session

/-- A session before its first phase. -/
def start (set : InstructionSet) (settings : Settings) : Session :=
  tell ⟨set, settings, .empty, [], .empty, [], [], ""⟩
    ("\tCreating " ++ InstructionSet.architecture ++ " unit...")

/-- A phase that has left its elements behind. -/
def hasRun (session : Session) (phase : Phase) : Bool :=
  (session.elements.lookup phase).isSome

/-- The instructions whose functions have been emitted, each with its emitter, in order. -/
def encoded (session : Session) : List (Instruction × Emitter) :=
  session.instructionEmitters.filterMap fun id =>
    session.emission.emitters[id]?.bind fun emitter =>
      emitter.instruction.map fun instruction => (instruction, emitter)

/-- The greatest number of parameters of one instruction. -/
def maxParameters (session : Session) : Nat :=
  (session.encoded.map fun entry => entry.2.parameters.length).foldl max 0

end Session

namespace Run

/-- Refuse with a cause. -/
def refuse {α : Type} (cause : Cause) : Run α := throw (.of cause)

/-- Continue with a value that may have been refused. -/
def ofExcept {α : Type} : Except Failure α → Run α
  | .ok value => pure value
  | .error failure => throw failure

/-- Perform a step of an emission. -/
def emit {α : Type} (step : Emit α) : Run α := fun session =>
  match step session.emission with
  | .ok value emission => .ok value { session with emission := emission }
  | .error failure emission => .error failure { session with emission := emission }

/-- Tell what is done. -/
def tell (line : String) : Run Unit := modify fun session => session.tell line

end Run

/-- Emit the functions of instructions. An instruction is listed once its
function has been emitted. -/
def emitInstructions : List Instruction → Run (List Code.Element)
  | [] => return []
  | instruction :: rest => do
    let id ← Run.emit (Emit.newEmitter (some instruction) (.listed []))
    let function ← Run.emit (instructionFunction ⟨id, some instruction.name⟩ instruction)
    modify fun session =>
      { session with instructionEmitters := session.instructionEmitters ++ [id] }
    return function :: (← emitInstructions rest)

/-- The rows of an instruction's parameter table. Their domains are registered. -/
def parameterRows (instruction : Instruction) (imposed : List (String × Domain)) :
    List String → Run (List String)
  | [] => return []
  | parameter :: rest => do
    let domain ← Run.ofExcept (rowDomain instruction imposed parameter)
    modify fun session => { session with registry := session.registry.register domain }
    return parameterRow parameter domain :: (← parameterRows instruction imposed rest)

/-- The parameter tables of the instructions that read parameters. -/
def parameterTables : List (Instruction × Emitter) → Run (List Code.Element)
  | [] => return []
  | (instruction, emitter) :: rest => do
    if emitter.parameters.isEmpty then parameterTables rest
    else
      let rows ← parameterRows instruction emitter.domains emitter.parameters
      return parameterTable instruction rows :: (← parameterTables rest)

/-- The operand tables of the listed instructions. -/
def operandTables : List (Instruction × Emitter) → Except Failure (List Code.Element)
  | [] => .ok []
  | (instruction, emitter) :: rest => do
    let first ← operandTable instruction emitter.parameters
    return first ++ (← operandTables rest)

/-- The declaration of a parameter structure, inside its budget. -/
def parameterStructure (basic : Bool) : Run Code.Element := do
  let settings := (← get).settings
  let budget := if basic then settings.basicBudget else settings.budget
  let layout ← Run.ofExcept
    (Parameters.Layout.make (Arch.parametersOf basic) basic (Parameters.Layout.unionsOf basic)
      budget)
  Run.tell ("\t\t" ++ Naming.parametersType basic ++ " uses " ++ layout.words ++ " words")
  return layout.declaration

/-- Produce the elements of a phase. -/
def produce : Phase → Run (List Code.Element)
  | .instructionFunctions => do emitInstructions (← get).set.instructions
  | .orderingFunctions => Run.emit do emitOrderings 0 (← get).orderings.entries
  | .permutationTables => do return (← get).emission.permutations.map permutationTable
  | .routineFunctions => Run.emit emitRoutines
  | .instructions => do
    return instructionTables ((← get).encoded.map fun entry =>
      instructionRow entry.1 entry.2.parameters)
  | .operands => do Run.ofExcept (operandTables (← get).encoded)
  | .mnemonics => do return (← get).encoded.map fun entry => mnemonicTable entry.1
  | .parameters => do parameterTables (← get).encoded
  | .parameterStructures => do
    let full ← parameterStructure false
    return [full, ← parameterStructure true]
  | .accessorStubs => Run.ofExcept (Parameters.Accessor.functions true)
  | .domains => do return domainConstants (← get).registry
  | .enumerations => do Run.ofExcept (enumerations (← get).set)
  | .accessors => Run.ofExcept (Parameters.Accessor.functions false)

/-- The text of elements, laid out as the settings say. -/
def blockText (elements : List Code.Element) (implementing : Bool) : Run String := do
  let settings := (← get).settings
  Run.ofExcept (Code.render elements settings.indent settings.width implementing)

/-- Refuse a phase that has run, or that needs one that has not. -/
def checkPhase (session : Session) (phase : Phase) : Except Failure Unit :=
  if session.hasRun phase then EncoderTables.refuse (.repeatedPhase phase.name)
  else
    match phase.needs.find? fun need => !session.hasRun need with
    | some need => EncoderTables.refuse (.prematurePhase phase.name need.name)
    | none => .ok ()

/-- Run a phase: its block of code. -/
def runOne (phase : Phase) : Run String := do
  Run.ofExcept (checkPhase (← get) phase)
  Run.tell ("\t\tTranslating " ++ phase.title ++ "...")
  let elements ← produce phase
  modify fun session => { session with elements := session.elements ++ [(phase, elements)] }
  let block ← blockText elements (!phase.forHeader)
  modify fun session => { session with blocks := session.blocks ++ [(phase, block)] }
  return block

/-- Run the phase of a name. -/
def runNamed (name : String) : Run String :=
  match Phase.ofName? name with
  | some phase => runOne phase
  | none => Run.refuse (.unknownPhase name)

/-- Run the phases of several names. -/
def runAll : List String → Run Unit
  | [] => return ()
  | name :: rest => do
    let _ ← runNamed name
    runAll rest

/-- Run all phases in the order that a library of graphs schedules them in. -/
def generateBy (graphs : Graphs) : Run Unit := do
  runAll (← Run.ofExcept (Schedule.order graphs Phase.declared))

/-- Run all phases in their scheduled order, with a library that keeps graphs in lists. -/
def generate : Run Unit := generateBy listGraphs

/-- Change the budget of a parameter structure. -/
def setBudget (words : Scalar) (basic : Bool) : Run Unit := do
  let limit ← Run.ofExcept (Settings.checkBudget words)
  modify fun session => { session with settings := session.settings.withBudget limit basic }

/-- The numbers that describe what has been generated so far, and the signature of the
set, by name. -/
def Session.scalars (session : Session) : List (String × Scalar) :=
  [("max_params_per_inst", .number session.maxParameters),
   ("param_idx_bitsize", .number (Bits.length session.maxParameters)),
   ("n_domains", .number session.registry.domains.length),
   ("n_insts", .number session.set.instructions.length),
   ("reg_id_bitsize", .number Arch.registerIdWidth),
   ("isa_signature", .text session.set.signature)]

/-- The elements that a phase has left behind. -/
def phaseElements (phase : Phase) : Run (List Code.Element) := do
  match (← get).elements.lookup phase with
  | some elements => return elements
  | none => Run.refuse .missingKey

/-- The elements that several phases have left behind. -/
def phasesElements : List Phase → Run (List Code.Element)
  | [] => return []
  | phase :: rest => do
    let first ← phaseElements phase
    return first ++ (← phasesElements rest)

/-- The header of the enumerations. -/
def enumerationsFile : String := "evoasm-x64-enums.h"

/-- The header of the parameter structures and their accessors. -/
def parametersFile : String := "evoasm-x64-params.h"

/-- The file of the instruction tables. -/
def instructionsFile : String := "evoasm-x64-insts.c"

/-- The header that belongs to the file of the instruction tables. -/
def instructionsHeader : String := "evoasm-x64-insts.h"

/-- A file name as a local include. -/
def localInclude (name : String) : String := "\"" ++ name ++ "\""

/-- A file laid out as the settings say. -/
def emptyFile (settings : Settings) (name : String) (forHeader : Bool) : Code.File :=
  .named name forHeader settings.indent settings.width

/-- The phases whose elements make up the parameter header. -/
def parameterPhases : List Phase := [.parameterStructures, .accessors, .accessorStubs]

/-- The phases of shared functions, which are called before they are defined. -/
def sharedPhases : List Phase := [.orderingFunctions, .routineFunctions]

/-- The phases whose elements follow the prototypes of the shared functions. -/
def definitionPhases : List Phase :=
  [.orderingFunctions, .routineFunctions, .instructionFunctions, .mnemonics, .operands,
   .domains, .parameters, .instructions, .accessorStubs]

/-- The elements of the file of the instruction tables. -/
def instructionElements : Run (List Code.Element) := do
  let prototypes ← blockText (← phasesElements sharedPhases) false
  let orders ← phaseElements .permutationTables
  let definitions ← phasesElements definitionPhases
  return orders ++ (if prototypes = "" then [] else [.plain prototypes]) ++ definitions

/-- All files with their texts. Unless some phase has been run before, all are run. -/
def write (folder : String) : Run (List (String × String)) := do
  if (← get).elements.isEmpty then generate
  let settings := (← get).settings
  let enumerations := (emptyFile settings enumerationsFile true).addElements
    (← phaseElements .enumerations)
  let enumerationsText ← Run.ofExcept enumerations.text
  let parameters := ((emptyFile settings parametersFile true).withFiles
    [localInclude enumerationsFile]).addElements (← phasesElements parameterPhases)
  let parametersText ← Run.ofExcept parameters.text
  let instructions := ((emptyFile settings instructionsFile false).withFiles
    [localInclude parametersFile, localInclude instructionsHeader]).addElements
      (← instructionElements)
  let instructionsText ← Run.ofExcept instructions.text
  Run.tell ("\t\tWritten " ++ enumerationsFile ++ ", " ++ parametersFile ++ " and " ++
    instructionsFile ++ " to " ++ folder)
  return [(enumerationsFile, enumerationsText), (parametersFile, parametersText),
    (instructionsFile, instructionsText)]

end EncoderTables.Generator
