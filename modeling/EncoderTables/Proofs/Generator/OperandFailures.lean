import EncoderTables.Proofs.Generator.LaterPhases
import EncoderTables.Proofs.Generator.OperandTables

/-!
# Operand tables that are refused

The operand tables describe what has been encoded when their phase runs. In whichever order
phases have run, these are all instructions of the set as soon as the phase is allowed. The
phase is refused for a parameter that is not listed exactly when one of them has an operand
with such a parameter.
-/

namespace EncoderTables.Generator

open Emission Steps

/-- What the phases that have run so far leave behind, in whichever order they have run. -/
structure Underway (set : InstructionSet) (session : Session) : Prop where
  source : session.set = set
  consistent : session.emission.Consistent none
  untouched : session.hasRun .instructionFunctions = false →
    session.emission = .empty ∧ session.instructionEmitters = [] ∧
      session.hasRun .orderingFunctions = false
  unemitted : session.hasRun .routineFunctions = false → session.emission.emitted = []
  listed : session.hasRun .instructionFunctions = true → Listed set session

/-- Before the first phase nothing has been left behind. -/
theorem Underway.start (set : InstructionSet) (settings : Settings) :
    Underway set (.start set settings) := by
  obtain ⟨source, empty, unnumbered, -, none⟩ := start_frame set settings
  have new (phase : Phase) : (Session.start set settings).hasRun phase = false := by
    simp [Session.hasRun, none]
  refine ⟨source, ?_, fun _ => ⟨empty, unnumbered, new _⟩, fun _ => ?_, ?_⟩
  · rw [empty]
    exact empty_consistent
  · rw [empty]
    rfl
  · simp [new]

/-- A phase that has run is the only one that has not run before. -/
theorem runOne_hasRun {phase : Phase} {before after : Session} {block : String}
    (ran : runOne phase before = .ok block after) (other : Phase) :
    after.hasRun other = (before.hasRun other || decide (other = phase)) := by
  obtain ⟨-, log, elements, produced, made, rfl⟩ := runOne_ok ran
  have former : produced.elements = before.elements := by rw [produce_changes made]
  rw [Bool.eq_iff_iff, Bool.or_eq_true, hasRun_iff, hasRun_iff, decide_eq_true_iff]
  simp [former]

/-- A phase leaves what is known about the phases that have run. -/
theorem Underway.runOne {set : InstructionSet} {phase : Phase} {before after : Session}
    {block : String} (underway : Underway set before)
    (ran : runOne phase before = .ok block after) : Underway set after := by
  have marks := runOne_hasRun ran
  have allowed := (checkPhase_ok_iff ..).mp (runOne_ok ran).1
  cases kind : phase.emits with
  | false =>
    have agrees := runOne_agrees kind ran
    have same (other : Phase) (emits : other.emits = true) :
        after.hasRun other = before.hasRun other := by
      have different : other ≠ phase := by
        rintro rfl
        exact absurd (kind.symm.trans emits) (by decide)
      simp [marks, different]
    refine ⟨agrees.set ▸ underway.source, agrees.emission ▸ underway.consistent, ?_, ?_, ?_⟩
    · rw [same _ rfl, same _ rfl, ← agrees.emission, ← agrees.instructionEmitters]
      exact underway.untouched
    · rw [same _ rfl, ← agrees.emission]
      exact underway.unemitted
    · rw [same _ rfl]
      intro ran
      have listed := underway.listed ran
      exact ⟨agrees.instructionEmitters ▸ listed.numbered, agrees.emission ▸ listed.placed⟩
  | true =>
    cases phase with
    | instructionFunctions =>
      obtain ⟨empty, unnumbered, -⟩ := underway.untouched allowed.1
      obtain ⟨emitted, fresh, -, source, numbered⟩ := runOne_instructions empty unnumbered ran
      rw [underway.source] at emitted source numbered
      exact ⟨source, emitted.consistent, by simp [marks], fun _ => fresh,
        fun _ => .of_emitted emitted numbered⟩
    | orderingFunctions =>
      have earlier := allowed.2 .instructionFunctions (by simp [Phase.needs])
      obtain ⟨emitted, unchanged, source, numbers⟩ := runOne_orderings underway.consistent ran
      refine ⟨source.trans underway.source, emitted.consistent, ?_, ?_, ?_⟩
      · simp [marks, earlier]
      · intro routines
        rw [unchanged]
        exact underway.unemitted (by simpa [marks] using routines)
      · exact fun _ => (underway.listed earlier).grown emitted.grown numbers
    | routineFunctions =>
      have earlier : before.hasRun .instructionFunctions = true :=
        allowed.2 .instructionFunctions (by simp [Phase.needs])
      obtain ⟨⟨added, -, emitted⟩, -, source, numbers⟩ :=
        runOne_routines underway.consistent (underway.unemitted allowed.1) ran
      refine ⟨source.trans underway.source, emitted.consistent, ?_, ?_, ?_⟩
      · simp [marks, earlier]
      · simp [marks]
      · exact fun _ => (underway.listed earlier).grown emitted.grown numbers
    | _ => simp [Phase.emits] at kind

/-- Phases run one after the other leave what is known about them. -/
theorem Underway.runAll {set : InstructionSet} {names : List String} {before after : Session}
    (underway : Underway set before) (ran : runAll names before = .ok () after) :
    Underway set after := by
  induction names generalizing before with
  | nil =>
    simp only [Generator.runAll, pure_ok_iff] at ran
    exact ran.2 ▸ underway
  | cons name rest inductionHypothesis =>
    simp only [Generator.runAll, bind_ok_iff, runNamed] at ran
    obtain ⟨block, middle, one, others⟩ := ran
    cases found : Phase.ofName? name with
    | some phase =>
      simp only [found] at one
      exact inductionHypothesis (underway.runOne one) others
    | none => simp [found, Run.refuse] at one

/-- In whichever order phases have run, all instructions have been encoded as soon as the
operand tables may be produced. -/
theorem encoded_of_allowed {set : InstructionSet} {settings : Settings} {names : List String}
    {session : Session} (ran : runAll names (.start set settings) = .ok () session)
    (allowed : checkPhase session .operands = .ok ()) :
    session.encoded.map (·.1) = set.instructions := by
  have underway := (Underway.start set settings).runAll ran
  have ready := ((checkPhase_ok_iff ..).mp allowed).2 .orderingFunctions (by simp [Phase.needs])
  refine (underway.listed ?_).map_fst_encoded
  cases encoded : session.hasRun .instructionFunctions with
  | true => rfl
  | false => simp [(underway.untouched encoded).2.2] at ready

/-- A refusal of a parameter that is not listed. -/
def NotListed (cause : Cause) : Prop :=
  ∃ parameter operand parameters, cause = .parameterNotFound parameter operand parameters

/-- A phase that is not allowed is refused for its place in the order. -/
theorem checkPhase_error {session : Session} {phase : Phase} {failure : Failure}
    (refused : checkPhase session phase = .error failure) : ¬ NotListed failure.cause := by
  rintro ⟨parameter, operand, parameters, cause⟩
  unfold checkPhase at refused
  split at refused
  · cases refused
    cases cause
  · split at refused
    · cases refused
      cases cause
    · cases refused

/-- Elements that can be printed are refused for the width of their lines alone. -/
theorem render_error {elements : List Code.Element} {chunks : List Code.Chunk}
    {indent width : Int} {implementing : Bool} {failure : Failure}
    (printed : Code.chunksOf implementing elements = .ok chunks)
    (refused : Code.render elements indent width implementing = .error failure) :
    failure = .of .lineTooShort := by
  simp only [Code.render, printed, Results.bind_error_iff, Results.pure_not_error, reduceCtorEq,
    and_false, exists_false, or_false] at refused
  unfold Code.Page.make at refused
  split at refused
  · exact (Except.error.inj refused).symm
  · cases refused

/-- The operand tables can be printed. -/
theorem operandTables_print (entries : List (Instruction × Emitter)) :
    ∃ chunks, Code.chunksOf true (entries.map operandElement) = .ok chunks := by
  refine chunksOf_succeeds ?_
  intro element member
  obtain ⟨entry, -, rfl⟩ := List.mem_map.mp member
  exact ⟨_, rfl⟩

/-- The phase of the operand tables is refused for a parameter that is not listed exactly when
it is allowed and an encoded instruction has an operand with such a parameter. -/
theorem operands_refused_iff (session : Session) :
    (∃ failure after, runNamed "inst_operands" session = .error failure after ∧
      NotListed failure.cause) ↔
    checkPhase session .operands = .ok () ∧
      ∃ entry ∈ session.encoded, ∃ operand ∈ entry.1.operands, ∃ parameter,
        operand.parameter = some parameter ∧ parameter ∉ entry.2.parameters := by
  have named : runNamed "inst_operands" = runOne .operands := runNamed_name .operands
  have told : (session.tell ("\t\tTranslating " ++ Phase.operands.title ++ "...")).encoded =
      session.encoded := by
    rw [tell_frame]
    rfl
  simp only [named, runOne_error_iff, produce_operands, told, Run.ofExcept_error_iff,
    Run.ofExcept_ok_iff]
  constructor
  · rintro ⟨failure, after, ⟨refused, -⟩ | ⟨allowed, later⟩, unlisted⟩
    · exact absurd unlisted (checkPhase_error refused)
    · refine ⟨allowed, ?_⟩
      rcases later with ⟨unmade, -⟩ | ⟨tables, produced, ⟨made, -⟩, unprinted, -⟩
      · obtain ⟨entry, member, operand, listed, parameter, own, absent, -⟩ :=
          operandTables_error unmade
        exact ⟨entry, member, operand, listed, parameter, own, absent⟩
      · obtain ⟨-, rfl⟩ := (operandTables_ok_iff ..).mp made
        obtain ⟨chunks, printed⟩ := operandTables_print (session.encoded.filter fun entry =>
          !entry.1.operands.isEmpty)
        rw [render_error printed unprinted] at unlisted
        obtain ⟨_, _, _, different⟩ := unlisted
        cases different
  · rintro ⟨allowed, entry, member, operand, listed, parameter, own, absent⟩
    cases made : operandTables session.encoded with
    | ok tables =>
      have known := ((operandTables_ok_iff ..).mp made).1 entry member operand listed
      exact absurd (known parameter own) absent
    | error failure =>
      obtain ⟨_, -, _, -, _, -, -, rfl⟩ := operandTables_error made
      exact ⟨_, _, Or.inr ⟨allowed, Or.inl ⟨rfl, rfl⟩⟩, _, _, _, rfl⟩

end EncoderTables.Generator
