import EncoderTables.Proofs.Generator.Attempts
import EncoderTables.Proofs.Generator.Blocks
import EncoderTables.Proofs.Simulation

/-!
# Moments of a set

Four phases change what has been found out about a set: those that emit functions and the
parameter tables. They can only run in one order, so what has been found out when a phase is
allowed depends on the set alone, up to what failed attempts have left behind. The state
behind the first of these phases, without anything else, is a moment of the set, and each
phase has one moment at which its elements are those that it produces in any session.
-/

namespace EncoderTables.Generator

open Steps

/-- Two sessions that have found out the same about the same set. -/
structure Session.Matches (session other : Session) : Prop where
  set : session.set = other.set
  emission : session.emission = other.emission
  instructionEmitters : session.instructionEmitters = other.instructionEmitters
  registry : session.registry = other.registry

namespace Session.Matches

variable {session other : Session}

/-- Each instruction has the same emitter. -/
theorem encoded_eq (same : session.Matches other) : session.encoded = other.encoded := by
  rw [Session.encoded, Session.encoded, same.instructionEmitters, same.emission]

/-- A session has found out what it has. -/
theorem refl (session : Session) : session.Matches session := ⟨rfl, rfl, rfl, rfl⟩

/-- On both sides the same has been found out. -/
theorem symm (same : session.Matches other) : other.Matches session :=
  ⟨same.set.symm, same.emission.symm, same.instructionEmitters.symm, same.registry.symm⟩

end Session.Matches

instance : Std.Refl Session.Matches := ⟨.refl⟩

instance : IsTrans Session Session.Matches :=
  ⟨fun _ _ _ head tail => ⟨head.set.trans tail.set, head.emission.trans tail.emission,
    head.instructionEmitters.trans tail.instructionEmitters, head.registry.trans tail.registry⟩⟩

instance : Std.Refl Session.Agrees := ⟨fun _ => ⟨rfl, rfl, rfl⟩⟩

instance : IsTrans Session Session.Agrees :=
  ⟨fun _ _ _ head tail => ⟨head.set.trans tail.set, head.emission.trans tail.emission,
    head.instructionEmitters.trans tail.instructionEmitters⟩⟩

/-- A step of an emission goes the same way in sessions that have found out the same. -/
theorem emit_simulates {α : Type} (step : Emit α) :
    Simulates Session.Matches Eq (Run.emit step) (Run.emit step) := by
  rintro before ⟨set, settings, emission, numbers, registry, elements, blocks, log⟩
    ⟨rfl, rfl, rfl, rfl⟩
  unfold Run.emit
  cases step before.emission with
  | ok value after => exact ⟨rfl, rfl, rfl, rfl, rfl⟩
  | error failure after => exact ⟨rfl, rfl, rfl, rfl, rfl⟩

/-- A value that may have been refused does not depend on the session. -/
theorem ofExcept_simulates {α : Type} {related : Session → Session → Prop}
    (found : Except Failure α) :
    Simulates related Eq (Run.ofExcept found) (Run.ofExcept found) := by
  cases found with
  | ok value => exact .pure rfl
  | error failure => exact .refused failure

/-- The functions of instructions go the same way. -/
theorem emitInstructions_simulates (instructions : List Instruction) :
    Simulates Session.Matches Eq (emitInstructions instructions)
      (emitInstructions instructions) := by
  induction instructions with
  | nil => exact .pure rfl
  | cons instruction rest inductionHypothesis =>
    refine (emit_simulates _).follow fun id => ?_
    refine (emit_simulates _).follow fun function => ?_
    refine (Simulates.changed ?_).bind ?_
    · rintro before former ⟨set, emission, numbers, registry⟩
      exact ⟨set, emission, by rw [numbers], registry⟩
    · intro _ _ _
      refine inductionHypothesis.follow fun functions => ?_
      exact .pure rfl

/-- The rows of a parameter table go the same way. -/
theorem parameterRows_simulates (instruction : Instruction) (imposed : List (String × Domain))
    (parameters : List String) :
    Simulates Session.Matches Eq (parameterRows instruction imposed parameters)
      (parameterRows instruction imposed parameters) := by
  induction parameters with
  | nil => exact .pure rfl
  | cons parameter rest inductionHypothesis =>
    refine (ofExcept_simulates _).follow fun domain => ?_
    refine (Simulates.changed ?_).bind ?_
    · rintro before former ⟨set, emission, numbers, registry⟩
      exact ⟨set, emission, numbers, by rw [registry]⟩
    · intro _ _ _
      refine inductionHypothesis.follow fun rows => ?_
      exact .pure rfl

/-- The parameter tables go the same way. -/
theorem parameterTables_simulates (entries : List (Instruction × Emitter)) :
    Simulates Session.Matches Eq (parameterTables entries) (parameterTables entries) := by
  induction entries with
  | nil => exact .pure rfl
  | cons entry rest inductionHypothesis =>
    unfold parameterTables
    split
    · exact inductionHypothesis
    · refine (parameterRows_simulates _ _ _).follow fun rows => ?_
      refine inductionHypothesis.follow fun tables => ?_
      exact .pure rfl

/-- In sessions that have found out the same, the elements of a phase are the same, unless they
depend on the settings. -/
theorem produce_simulates {phase : Phase} (unset : phase ≠ .parameterStructures) :
    Simulates Session.Matches Eq (produce phase) (produce phase) := by
  cases phase with
  | parameterStructures => exact absurd rfl unset
  | instructionFunctions =>
    refine Simulates.read.bind fun session other same => ?_
    rw [same.set]
    exact emitInstructions_simulates _
  | orderingFunctions | routineFunctions => exact emit_simulates _
  | permutationTables =>
    refine Simulates.read.bind fun session other same => ?_
    rw [same.emission]
    exact .pure rfl
  | instructions | mnemonics =>
    refine Simulates.read.bind fun session other same => ?_
    rw [same.encoded_eq]
    exact .pure rfl
  | operands =>
    refine Simulates.read.bind fun session other same => ?_
    rw [same.encoded_eq]
    exact ofExcept_simulates _
  | parameters =>
    refine Simulates.read.bind fun session other same => ?_
    rw [same.encoded_eq]
    exact parameterTables_simulates _
  | accessorStubs => exact ofExcept_simulates (Parameters.Accessor.functions true)
  | accessors => exact ofExcept_simulates (Parameters.Accessor.functions false)
  | domains =>
    refine Simulates.read.bind fun session other same => ?_
    rw [same.registry]
    exact .pure rfl
  | enumerations =>
    refine Simulates.read.bind fun session other same => ?_
    rw [same.set]
    exact ofExcept_simulates _

/-- What an attempt of a phase leaves alone, whether it fails or not. -/
structure Session.Stays (before after : Session) : Prop where
  set : after.set = before.set
  settings : after.settings = before.settings
  elements : after.elements = before.elements
  blocks : after.blocks = before.blocks

instance : Std.Refl Session.Stays := ⟨fun _ => ⟨rfl, rfl, rfl, rfl⟩⟩

instance : IsTrans Session Session.Stays :=
  ⟨fun _ _ _ head tail => ⟨tail.set.trans head.set, tail.settings.trans head.settings,
    tail.elements.trans head.elements, tail.blocks.trans head.blocks⟩⟩

/-- Once the functions of instructions have been emitted, the instructions keep their emitters
and only shared functions follow. -/
structure Session.Resumes (before after : Session) : Prop where
  instructionEmitters : after.instructionEmitters = before.instructionEmitters
  emission : before.emission.Extends none after.emission

instance : Std.Refl Session.Resumes := ⟨fun session => ⟨rfl, .refl none session.emission⟩⟩

instance : IsTrans Session Session.Resumes :=
  ⟨fun _ _ _ head tail => ⟨tail.instructionEmitters.trans head.instructionEmitters,
    head.emission.trans tail.emission⟩⟩

/-- A step of an emission keeps what its states keep. -/
theorem emit_keeps {α : Type} {related : Session → Session → Prop}
    {kept : Emission → Emission → Prop} {step : Emit α}
    (each : ∀ session emission, kept session.emission emission →
      related session { session with emission := emission })
    (keeps : Keeps kept step) : Keeps related (Run.emit step) := by
  intro before
  have beside := keeps before.emission
  unfold Run.emit
  cases reached : step before.emission with
  | ok value after =>
    rw [reached] at beside
    exact each before after beside
  | error failure after =>
    rw [reached] at beside
    exact each before after beside

/-- A value that may have been refused changes nothing. -/
theorem ofExcept_keeps {α : Type} {related : Session → Session → Prop} [Std.Refl related]
    (found : Except Failure α) : Keeps related (Run.ofExcept found) := by
  cases found with
  | ok value => exact .pure value
  | error failure => exact .refused failure

section Describing

variable {related : Session → Session → Prop} [Std.Refl related] [IsTrans Session related]

/-- The rows of a parameter table keep what does not depend on the registry. -/
theorem parameterRows_keeps
    (registers : ∀ session registry, related session { session with registry := registry })
    (instruction : Instruction) (imposed : List (String × Domain)) (parameters : List String) :
    Keeps related (parameterRows instruction imposed parameters) := by
  induction parameters with
  | nil => exact .pure _
  | cons parameter rest inductionHypothesis =>
    exact (ofExcept_keeps _).bind fun domain =>
      (Keeps.changed fun session => registers session _).bind fun _ =>
        inductionHypothesis.bind fun _ => .pure _

/-- The parameter tables keep what does not depend on the registry. -/
theorem parameterTables_keeps
    (registers : ∀ session registry, related session { session with registry := registry })
    (entries : List (Instruction × Emitter)) : Keeps related (parameterTables entries) := by
  induction entries with
  | nil => exact .pure _
  | cons entry rest inductionHypothesis =>
    unfold parameterTables
    split
    · exact inductionHypothesis
    · exact (parameterRows_keeps registers _ _ _).bind fun _ =>
        inductionHypothesis.bind fun _ => .pure _

/-- The declaration of a parameter structure keeps what does not depend on the log. -/
theorem parameterStructure_keeps
    (tells : ∀ session log, related session { session with log := log }) (basic : Bool) :
    Keeps related (parameterStructure basic) := by
  refine Keeps.read.bind fun session => (ofExcept_keeps _).bind fun layout => ?_
  refine (Keeps.changed fun before => ?_).bind fun _ => .pure _
  rw [tell_frame]
  exact tells before _

/-- A phase that emits no function keeps what does not depend on the log, nor, for the
parameter tables, on the registry. -/
theorem produce_keeps_describing {phase : Phase} (describes : phase.emits = false)
    (tells : ∀ session log, related session { session with log := log })
    (registers : phase = .parameters →
      ∀ session registry, related session { session with registry := registry }) :
    Keeps related (produce phase) := by
  cases phase with
  | instructionFunctions | orderingFunctions | routineFunctions => cases describes
  | permutationTables | instructions | mnemonics | domains =>
    exact Keeps.read.bind fun _ => .pure _
  | operands => exact Keeps.read.bind fun _ => ofExcept_keeps _
  | parameters => exact Keeps.read.bind fun _ => parameterTables_keeps (registers rfl) _
  | parameterStructures =>
    exact (parameterStructure_keeps tells false).bind fun _ =>
      (parameterStructure_keeps tells true).bind fun _ => .pure _
  | accessorStubs => exact ofExcept_keeps (Parameters.Accessor.functions true)
  | enumerations => exact Keeps.read.bind fun _ => ofExcept_keeps _
  | accessors => exact ofExcept_keeps (Parameters.Accessor.functions false)

end Describing

/-- A step of an emission leaves the set, the settings and what phases have left. -/
theorem emit_stays {α : Type} (step : Emit α) : Keeps Session.Stays (Run.emit step) := by
  refine @emit_keeps _ _ (fun _ _ => True) _ (fun _ _ _ => ⟨rfl, rfl, rfl, rfl⟩) fun before => ?_
  cases step before <;> trivial

/-- The functions of instructions leave the set, the settings and what phases have left. -/
theorem emitInstructions_stays (instructions : List Instruction) :
    Keeps Session.Stays (emitInstructions instructions) := by
  induction instructions with
  | nil => exact .pure _
  | cons instruction rest inductionHypothesis =>
    exact (emit_stays _).bind fun _ => (emit_stays _).bind fun _ =>
      (Keeps.changed fun _ => ⟨rfl, rfl, rfl, rfl⟩).bind fun _ =>
        inductionHypothesis.bind fun _ => .pure _

/-- An attempt of a phase leaves the set, the settings and what phases have left. -/
theorem produce_stays (phase : Phase) : Keeps Session.Stays (produce phase) := by
  cases kind : phase.emits with
  | false =>
    exact produce_keeps_describing kind (fun _ _ => ⟨rfl, rfl, rfl, rfl⟩)
      fun _ _ _ => ⟨rfl, rfl, rfl, rfl⟩
  | true =>
    cases phase with
    | instructionFunctions => exact Keeps.read.bind fun _ => emitInstructions_stays _
    | orderingFunctions | routineFunctions => exact emit_stays _
    | _ => cases kind

/-- An attempt of a phase behind the first one emits at most shared functions. -/
theorem produce_resumes {phase : Phase} (later : phase ≠ .instructionFunctions) :
    Keeps Session.Resumes (produce phase) := by
  have emits {α : Type} {step : Emit α} (keeps : Keeps (Emission.Extends none) step) :
      Keeps Session.Resumes (Run.emit step) :=
    emit_keeps (fun _ _ extended => ⟨rfl, extended⟩) keeps
  cases kind : phase.emits with
  | false =>
    exact produce_keeps_describing kind (fun session _ => ⟨rfl, .refl none session.emission⟩)
      fun _ session _ => ⟨rfl, .refl none session.emission⟩
  | true =>
    cases phase with
    | instructionFunctions => exact absurd rfl later
    | orderingFunctions => exact emits (Keeps.read.bind fun _ => emitOrderings_keeps _ _)
    | routineFunctions =>
      exact emits (Keeps.read.bind fun _ => emitRoutinesWithin_keeps _ _)
    | _ => cases kind

/-- The phases that change what has been found out, in the only order in which they can
run. -/
def Phase.chain : List Phase :=
  [.instructionFunctions, .orderingFunctions, .routineFunctions, .parameters]

/-- The phases of the chain that decide about the elements of a phase. -/
def Phase.basis : Phase → List Phase
  | .instructionFunctions | .parameterStructures | .accessorStubs | .enumerations
  | .accessors => []
  | .orderingFunctions | .permutationTables | .mnemonics => [.instructionFunctions]
  | .routineFunctions => [.instructionFunctions, .orderingFunctions]
  | .instructions | .operands | .parameters =>
    [.instructionFunctions, .orderingFunctions, .routineFunctions]
  | .domains => [.instructionFunctions, .orderingFunctions, .routineFunctions, .parameters]

namespace Session

/-- A session over a set that has found out nothing. -/
def bare (set : InstructionSet) : Session := ⟨set, .default, .empty, [], .empty, [], [], ""⟩

/-- What has been found out behind a phase, if it can be produced. -/
def behind? (session : Session) (phase : Phase) : Option Session :=
  match produce phase session with
  | .ok _ after => some after
  | .error .. => none

/-- There is something behind a phase when its elements can be produced. -/
theorem behind?_eq_some_iff (session after : Session) (phase : Phase) :
    session.behind? phase = some after ↔ ∃ elements, produce phase session = .ok elements after := by
  unfold behind?
  cases produce phase session <;> simp

/-- The elements of a phase, if they can be produced. -/
def elements? (session : Session) (phase : Phase) : Option (List Code.Element) :=
  match produce phase session with
  | .ok elements _ => some elements
  | .error .. => none

end Session

/-- What has been found out about a set behind some phases of the chain. -/
def moment (set : InstructionSet) (phases : List Phase) : Option Session :=
  phases.foldlM Session.behind? (.bare set)

/-- The elements of a phase as the set decides about them. -/
def canonical (set : InstructionSet) (phase : Phase) : Option (List Code.Element) :=
  (moment set phase.basis).bind (·.elements? phase)

end EncoderTables.Generator
