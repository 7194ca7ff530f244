import EncoderTables.Instruction.Basic
import EncoderTables.Sharing.Permutation
import EncoderTables.Sharing.Ledger

/-!
# Emission of functions

While functions are emitted, an emitter for each of them collects the parameters that its
body reads, in the order of first use, and the domains that it imposes on them. Routines
and unordered writes are shared: each distinct one has one function, however many bodies
call it. What the emitter of a shared function collects is merged into the emitters of
all bodies that call it, and from there into the callers of those.
-/

namespace EncoderTables.Generator

/-- The emitters whose bodies call the function of an emitter: a fixed list, or all that
have requested a shared function so far. -/
inductive Callers where
  | listed (emitters : List Nat)
  | ofOrdering (id : Nat)
  | ofRoutine (id : Nat)
  deriving DecidableEq, Repr

/-- What is known about the body of one function. -/
structure Emitter where
  instruction : Option Instruction
  parameters : List String
  domains : List (String × Domain)
  canFail : Bool
  callers : Callers

namespace Emitter

/-- An emitter before anything has been emitted. -/
def fresh (instruction : Option Instruction) (callers : Callers) : Emitter :=
  ⟨instruction, [], [], false, callers⟩

/-- The name of the instruction whose body is emitted; shared functions have none. -/
def owner (emitter : Emitter) : Option String := emitter.instruction.map (·.name)

/-- Record the use of a parameter. -/
def use (emitter : Emitter) (name : String) : Emitter :=
  if emitter.parameters.contains name then emitter
  else { emitter with parameters := emitter.parameters ++ [name] }

/-- Give a key a value; a key that is there already keeps its place. -/
def setEntry {α : Type} (name : String) (value : α) : List (String × α) → List (String × α)
  | [] => [(name, value)]
  | (first, old) :: rest =>
    if first = name then (first, value) :: rest else (first, old) :: setEntry name value rest

/-- The entries of a list in which a later value of a key replaces an earlier one. -/
def ofEntries {α : Type} (entries : List (String × α)) : List (String × α) :=
  entries.foldl (fun known entry => setEntry entry.1 entry.2 known) []

/-- Impose a domain on a parameter, in the place of any earlier one. -/
def impose (emitter : Emitter) (name : String) (domain : Domain) : Emitter :=
  { emitter with domains := setEntry name domain emitter.domains }

end Emitter

/-- The members of a list that are not known, each once, in order. -/
def missingNames (known : List String) : List String → List String
  | [] => []
  | name :: rest =>
    if known.contains name then missingNames known rest
    else name :: missingNames (known ++ [name]) rest

/-- The entries of a list whose keys are not known, the first of each key, in order. -/
def missingEntries (known : List String) : List (String × Domain) → List (String × Domain)
  | [] => []
  | entry :: rest =>
    if known.contains entry.1 then missingEntries known rest
    else entry :: missingEntries (known ++ [entry.1]) rest

/-- All emitters and what they share: the requested unordered writes and routines, each
with the emitters that requested it, the sizes of the needed permutation tables, and the
emitters of the routines emitted so far. -/
structure Emission where
  emitters : List Emitter
  orderings : Ledger (List Node) Nat
  routines : Ledger Node Nat
  permutations : List Nat
  emitted : List (Nat × Nat)

namespace Emission

/-- Nothing has been emitted. -/
def empty : Emission := ⟨[], .empty, .empty, [], []⟩

/-- Create an emitter, which is known by its position from then on. -/
def add (emission : Emission) (emitter : Emitter) : Nat × Emission :=
  (emission.emitters.length, { emission with emitters := emission.emitters ++ [emitter] })

/-- Change one emitter. -/
def update (emission : Emission) (id : Nat) (change : Emitter → Emitter) : Emission :=
  { emission with emitters := emission.emitters.modify id change }

/-- The callers of an emitter at this moment. -/
def callers (emission : Emission) : Callers → List Nat
  | .listed emitters => emitters
  | .ofOrdering id => (emission.orderings.entries[id]?.map (·.2)).getD []
  | .ofRoutine id => (emission.routines.entries[id]?.map (·.2)).getD []

/-- Merge parameters and domains into an emitter, and what is new to it into its callers.
Each step into a caller has made at least one emitter know more. -/
def mergeWithin : (fuel : Nat) → (parameters : List String) →
    (domains : List (String × Domain)) → Emission → (id : Nat) → Emission
  | 0, _, _, emission, _ => emission
  | fuel + 1, parameters, domains, emission, id =>
    match emission.emitters[id]? with
    | none => emission
    | some emitter =>
      let names := missingNames emitter.parameters parameters
      let entries := missingEntries (emitter.domains.map (·.1)) domains
      if names.isEmpty && entries.isEmpty then emission
      else
        let merged := emission.update id fun emitter =>
          { emitter with
            parameters := emitter.parameters ++ names
            domains := emitter.domains ++ entries }
        (merged.callers emitter.callers).foldl (mergeWithin fuel names entries) merged

/-- Merge parameters and domains into an emitter and everything that calls its function.
No parameter or domain is new to an emitter twice, which bounds the depth of the merge. -/
def merge (emission : Emission) (id : Nat) (parameters : List String)
    (domains : List (String × Domain)) : Emission :=
  mergeWithin (emission.emitters.length * (parameters.length + domains.length) + 1)
    parameters domains emission id

/-- Merge all that an emitter knows into another one. -/
def mergeFrom (emission : Emission) (source target : Nat) : Emission :=
  match emission.emitters[source]? with
  | none => emission
  | some emitter => emission.merge target emitter.parameters emitter.domains

/-- Request the function of a list of unordered writes, and with it the table of their
orders. -/
def requestOrdering (emission : Emission) (writes : List Node) (id : Nat) : Nat × Emission :=
  let (ordering, orderings) := emission.orderings.request writes id
  (ordering,
    { emission with
      orderings := orderings
      permutations := Permutation.need emission.permutations writes.length })

/-- Request the function of a routine. One that has been emitted already does not tell
its later callers by itself, so its parameters are merged at once. -/
def requestRoutine (emission : Emission) (routine : Node) (id : Nat) : Nat × Emission :=
  let (called, routines) := emission.routines.request routine id
  let requested := { emission with routines := routines }
  match requested.emitted.lookup called with
  | none => (called, requested)
  | some source => (called, requested.mergeFrom source id)

/-- Remember the emitter of a routine's function; a repeated attempt replaces it. -/
def setEmitted (called id : Nat) : List (Nat × Nat) → List (Nat × Nat)
  | [] => [(called, id)]
  | (first, old) :: rest =>
    if first = called then (first, id) :: rest else (first, old) :: setEmitted called id rest

end Emission

/-- A step of an emission. What was recorded before a failure stays. -/
abbrev Emit := EStateM Failure Emission

namespace Emit

/-- Refuse with a cause. -/
def refuse {α : Type} (cause : Cause) : Emit α := throw (.of cause)

/-- Continue with a value that may have been refused. -/
def ofExcept {α : Type} : Except Failure α → Emit α
  | .ok value => pure value
  | .error failure => throw failure

/-- Request the function of a list of unordered writes, which are looked up by their
content. -/
def requestOrdering (writes : List Node) (id : Nat) : Emit Nat := do
  if !Node.areFixed writes then refuse .noFixedContent
  modifyGet fun emission => emission.requestOrdering writes id

/-- Request the function of a routine, which is looked up by its content. -/
def requestRoutine (routine : Node) (id : Nat) : Emit Nat := do
  if !routine.isFixed then refuse .noFixedContent
  modifyGet fun emission => emission.requestRoutine routine id

/-- Create an emitter. -/
def newEmitter (instruction : Option Instruction) (callers : Callers) : Emit Nat :=
  modifyGet fun emission => emission.add (.fresh instruction callers)

/-- Change an emitter. -/
def update (id : Nat) (change : Emitter → Emitter) : Emit Unit :=
  modify fun emission => emission.update id change

end Emit

end EncoderTables.Generator
