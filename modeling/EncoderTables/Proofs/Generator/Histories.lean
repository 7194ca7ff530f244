import EncoderTables.Proofs.Generator.ParameterLists
import EncoderTables.Proofs.Generator.Progress

/-!
# Histories of calls

A user runs phases by their names, in any order and again after a failure, and may change the
budgets of the parameter structures in between. Whatever has been asked before, the block of a
phase depends on the set, the indentation and the width of lines alone: the elements of the
phase are those that the set decides about, and they can always be laid out. A phase succeeds
at most once, and behind those that it needs.
-/

namespace EncoderTables.Generator

open Steps

/-- An element that has an implementation. -/
def Prints (element : Code.Element) : Prop := ∃ chunks, element.chunks false = .ok chunks

/-- A function can be printed when its parameters have texts. -/
theorem encodingFunction_prints {comment : Code.Comment} {name code : String}
    {parameters : List Code.Element} {site : Site} {before after : Emission}
    {function : Code.Element} {texts : List String}
    (named : Code.Element.texts parameters = .ok texts)
    (made : encodingFunction comment name code parameters site before = .ok function after) :
    Prints function := by
  simp only [encodingFunction, bind_ok_iff, get_ok_iff, pure_ok_iff] at made
  obtain ⟨_, _, -, rfl, -⟩ := made
  unfold Prints
  simp only [Code.Element.chunks, named]
  exact ⟨_, rfl⟩

/-- The functions of instructions can be printed. -/
theorem emitInstructions_prints {instructions : List Instruction} {before after : Session}
    {functions : List Code.Element}
    (made : emitInstructions instructions before = .ok functions after) :
    ∀ function ∈ functions, Prints function := by
  induction instructions generalizing before functions with
  | nil =>
    simp only [emitInstructions, pure_ok_iff] at made
    simp [← made.1]
  | cons instruction rest inductionHypothesis =>
    obtain ⟨function, written, others, own, remaining, rfl⟩ := emitInstructions_cons_ok_iff.mp made
    simp only [instructionFunction, bind_ok_iff] at own
    obtain ⟨_, _, -, own⟩ := own
    exact List.forall_mem_cons.mpr
      ⟨encodingFunction_prints rfl own, inductionHypothesis remaining⟩

/-- The functions of unordered writes can be printed. -/
theorem emitOrderings_prints {id : Nat} {entries : List (List Node × List Nat)}
    {before after : Emission} {functions : List Code.Element}
    (made : emitOrderings id entries before = .ok functions after) :
    ∀ function ∈ functions, Prints function := by
  induction entries generalizing id before functions with
  | nil =>
    simp only [emitOrderings, pure_ok_iff] at made
    simp [← made.1]
  | cons entry rest inductionHypothesis =>
    obtain ⟨function, written, others, own, remaining, rfl⟩ := emitOrderings_cons_ok_iff.mp made
    simp only [orderingFunction, bind_ok_iff] at own
    obtain ⟨_, _, -, own⟩ := own
    exact List.forall_mem_cons.mpr
      ⟨encodingFunction_prints rfl own, inductionHypothesis remaining⟩

/-- The functions of routines can be printed. -/
theorem emitRoutinesWithin_prints {fuel id : Nat} {before after : Emission}
    {functions : List Code.Element}
    (made : emitRoutinesWithin fuel id before = .ok functions after) :
    ∀ function ∈ functions, Prints function := by
  induction fuel generalizing id before functions with
  | zero =>
    simp only [emitRoutinesWithin, pure_ok_iff] at made
    simp [← made.1]
  | succ fuel inductionHypothesis =>
    rcases emitRoutinesWithin_succ_ok_iff.mp made with
      ⟨-, rfl, -⟩ | ⟨routine, function, middle, others, -, own, remaining, rfl⟩
    · exact List.forall_mem_nil _
    · obtain ⟨_, _, written, -⟩ := emitRoutine_ok_iff.mp own
      refine List.forall_mem_cons.mpr ⟨?_, inductionHypothesis remaining⟩
      cases routine with
      | routine name members =>
        simp only [routineFunction, bind_ok_iff] at written
        obtain ⟨_, _, -, made⟩ := written
        exact encodingFunction_prints rfl made
      | _ => simp [routineFunction] at written

/-- The elements that a phase produces can be printed. -/
theorem produce_prints {phase : Phase} {before after : Session} {elements : List Code.Element}
    (made : produce phase before = .ok elements after) :
    ∃ chunks, Code.chunksOf (!phase.forHeader) elements = .ok chunks := by
  cases phase with
  | instructionFunctions =>
    rw [produce_instructionFunctions] at made
    exact chunksOf_succeeds (emitInstructions_prints made)
  | orderingFunctions =>
    rw [produce_orderingFunctions, Run.emit_ok_iff] at made
    obtain ⟨_, made, -⟩ := made
    exact chunksOf_succeeds (emitOrderings_prints made)
  | routineFunctions =>
    rw [produce_routineFunctions, Run.emit_ok_iff] at made
    obtain ⟨_, made, -⟩ := made
    rw [emitRoutines_eq] at made
    exact chunksOf_succeeds (emitRoutinesWithin_prints made)
  | permutationTables =>
    rw [produce_permutationTables] at made
    obtain ⟨rfl, -⟩ := EStateM.Result.ok.inj made
    refine chunksOf_succeeds fun element member => ?_
    obtain ⟨items, -, rfl⟩ := List.mem_map.mp member
    exact ⟨_, rfl⟩
  | instructions =>
    rw [produce_instructions] at made
    obtain ⟨rfl, -⟩ := EStateM.Result.ok.inj made
    exact ⟨_, rfl⟩
  | operands =>
    rw [produce_operands, Run.ofExcept_ok_iff] at made
    obtain ⟨-, rfl⟩ := (operandTables_ok_iff ..).mp made.1
    exact operandTables_print _
  | mnemonics =>
    rw [produce_mnemonics] at made
    obtain ⟨rfl, -⟩ := EStateM.Result.ok.inj made
    refine chunksOf_succeeds fun element member => ?_
    obtain ⟨entry, -, rfl⟩ := List.mem_map.mp member
    exact ⟨_, rfl⟩
  | parameters =>
    rw [produce_parameters] at made
    obtain ⟨-, rfl, -⟩ := parameterTables_ok made
    refine chunksOf_succeeds fun element member => ?_
    obtain ⟨entry, -, rfl⟩ := List.mem_map.mp member
    exact ⟨_, rfl⟩
  | parameterStructures =>
    obtain ⟨found, latter, chunks, remade, printed⟩ := @produce_succeeds .parameterStructures
      (by simp [closingPhases]) (.bare before.set) rfl
    have same := (@parameterStructures_canonical before.set _ _ _ made).symm.trans
      (parameterStructures_canonical remade)
    exact ⟨chunks, Option.some.inj same ▸ printed⟩
  | accessorStubs =>
    obtain ⟨found, chunks, functions, printed⟩ := accessorFunctions_print true
    rw [produce_accessorStubs, Run.ofExcept_ok_iff] at made
    obtain rfl := Except.ok.inj (functions.symm.trans made.1)
    exact ⟨chunks, printed⟩
  | domains =>
    rw [produce_domains] at made
    obtain ⟨rfl, -⟩ := EStateM.Result.ok.inj made
    exact domainConstants_print _
  | enumerations =>
    obtain ⟨found, chunks, listed, printed⟩ := enumerations_print before.set
    rw [produce_enumerations, Run.ofExcept_ok_iff] at made
    obtain rfl := Except.ok.inj (listed.symm.trans made.1)
    exact ⟨chunks, printed⟩
  | accessors =>
    obtain ⟨found, chunks, functions, printed⟩ := accessorFunctions_print false
    rw [produce_accessors, Run.ofExcept_ok_iff] at made
    obtain rfl := Except.ok.inj (functions.symm.trans made.1)
    exact ⟨chunks, printed⟩

/-- What a user asks of a session: to run the phase of a name, or to change a budget. -/
inductive Call where
  | phase (name : String)
  | budget (words : Scalar) (basic : Bool)
  deriving DecidableEq, Repr

/-- The step of a call. -/
def Call.step : Call → Run Unit
  | .phase name => do
    let _ ← runNamed name
    return ()
  | .budget words basic => setBudget words basic

namespace Session

/-- The session behind a call, whether it succeeds or is refused. -/
def perform (session : Session) (call : Call) : Session :=
  match call.step session with
  | .ok _ after => after
  | .error _ after => after

/-- The session behind several calls. -/
def performAll (session : Session) (calls : List Call) : Session := calls.foldl perform session

/-- The phase that a call runs, if it succeeds. -/
def succeeds? (session : Session) : Call → Option Phase
  | .phase name =>
    match runNamed name session with
    | .ok .. => Phase.ofName? name
    | .error .. => none
  | .budget .. => none

/-- The phases that succeed during several calls, in their order. -/
def succeeded : Session → List Call → List Phase
  | _, [] => []
  | session, call :: rest =>
    (session.succeeds? call).toList ++ succeeded (session.perform call) rest

/-- The phases that have left their elements behind, in their order. -/
def phases (session : Session) : List Phase := session.elements.map (·.1)

end Session

/-- What is known of a session behind any calls: its progress, the layout that its settings
keep, and that its blocks are the texts of the elements that the set decides about. -/
structure Traced (set : InstructionSet) (settings : Settings) (session : Session) : Prop where
  progress : Progress set session
  indent : session.settings.indent = settings.indent
  width : session.settings.width = settings.width
  printed : ∀ entry ∈ session.blocks, ∃ elements, canonical set entry.1 = some elements ∧
    Code.render elements settings.indent settings.width (!entry.1.forHeader) = .ok entry.2

/-- A session before its first call. -/
theorem Traced.start (set : InstructionSet) (settings : Settings) :
    Traced set settings (.start set settings) := by
  have fresh : (Session.start set settings).blocks = [] ∧
      (Session.start set settings).settings = settings := by
    rw [Session.start, tell_frame]
    exact ⟨rfl, rfl⟩
  exact ⟨.start set settings, by rw [fresh.2], by rw [fresh.2], by simp [fresh.1]⟩

/-- What is known does not depend on the budgets or on the log. -/
theorem Traced.congr {set : InstructionSet} {settings : Settings} {session other : Session}
    (traced : Traced set settings session) (same : session.Matches other)
    (elements : other.elements = session.elements) (blocks : other.blocks = session.blocks)
    (indent : other.settings.indent = session.settings.indent)
    (width : other.settings.width = session.settings.width) : Traced set settings other :=
  ⟨traced.progress.congr same elements, indent.trans traced.indent, width.trans traced.width,
    blocks ▸ traced.printed⟩

/-- Telling what is done leaves what is known. -/
theorem Traced.tell {set : InstructionSet} {settings : Settings} {session : Session}
    (traced : Traced set settings session) (line : String) :
    Traced set settings (session.tell line) := by
  rw [tell_frame]
  exact traced.congr ⟨rfl, rfl, rfl, rfl⟩ rfl rfl rfl rfl

/-- Telling what is done leaves the phases that have run. -/
theorem phases_tell (session : Session) (line : String) :
    (session.tell line).phases = session.phases := by
  rw [tell_frame]
  rfl

/-- A phase that is allowed may still run when it has been told that it is about to. -/
theorem checkPhase_tell (session : Session) (line : String) (phase : Phase) :
    checkPhase (session.tell line) phase = checkPhase session phase := by
  rw [tell_frame]
  rfl

/-- A phase that succeeds leaves its block, the text of the elements that the set decides
about. -/
theorem Traced.runOne_ok {set : InstructionSet} {settings : Settings} {before after : Session}
    {phase : Phase} {block : String} (traced : Traced set settings before)
    (ran : runOne phase before = .ok block after) :
    Traced set settings after ∧ after.phases = before.phases ++ [phase] := by
  obtain ⟨allowed, elements, produced, made, printed, rfl⟩ := (runOne_ok_iff ..).mp ran
  have told := traced.tell ("\t\tTranslating " ++ phase.title ++ "...")
  rw [← checkPhase_tell before ("\t\tTranslating " ++ phase.title ++ "...")] at allowed
  rw [← phases_tell before ("\t\tTranslating " ++ phase.title ++ "...")]
  generalize before.tell ("\t\tTranslating " ++ phase.title ++ "...") = start at *
  have stays := (produce_stays phase).ok made
  refine ⟨⟨(told.progress.produced allowed made).congr ⟨rfl, rfl, rfl, rfl⟩ rfl, ?_, ?_, ?_⟩, ?_⟩
  · exact stays.settings ▸ told.indent
  · exact stays.settings ▸ told.width
  · intro entry member
    rcases List.mem_append.mp member with old | new
    · exact told.printed entry (stays.blocks ▸ old)
    · rw [List.mem_singleton.mp new]
      refine ⟨elements, told.progress.canonical allowed made, ?_⟩
      rw [← told.indent, ← told.width, ← stays.settings]
      exact printed
  · simp [Session.phases, stays.elements]

/-- A phase that fails leaves what is known, and no elements: lines of the least width have
room for the text of any elements. -/
theorem Traced.runOne_error {set : InstructionSet} {settings : Settings}
    {before after : Session} {phase : Phase} {failure : Failure}
    (traced : Traced set settings before) (wide : Code.leastWidth ≤ settings.width)
    (refused : runOne phase before = .error failure after) :
    Traced set settings after ∧ after.phases = before.phases := by
  rcases (runOne_error_iff ..).mp refused with ⟨-, rfl⟩ | ⟨allowed, attempted⟩
  · exact ⟨traced, rfl⟩
  · have told := traced.tell ("\t\tTranslating " ++ phase.title ++ "...")
    rw [← checkPhase_tell before ("\t\tTranslating " ++ phase.title ++ "...")] at allowed
    rw [← phases_tell before ("\t\tTranslating " ++ phase.title ++ "...")]
    generalize before.tell ("\t\tTranslating " ++ phase.title ++ "...") = start at *
    rcases attempted with unmade | ⟨elements, produced, made, unprinted, -⟩
    · have stays := (produce_stays phase).error unmade
      refine ⟨⟨told.progress.refused allowed unmade, stays.settings ▸ told.indent,
        stays.settings ▸ told.width, stays.blocks ▸ told.printed⟩, ?_⟩
      rw [Session.phases, stays.elements, Session.phases]
    · obtain ⟨chunks, printed⟩ := produce_prints made
      have stays := (produce_stays phase).ok made
      rw [← told.width, ← stays.settings] at wide
      obtain ⟨text, found⟩ := render_succeeds produced.settings.indent printed wide
      rw [found] at unprinted
      cases unprinted

/-- A phase that others are followed by: it is new, and all that it needs are among them. -/
def Phase.Follows (phase : Phase) (phases : List Phase) : Prop :=
  phase ∉ phases ∧ phase.needs ⊆ phases

/-- A phase that is allowed follows those that have run. -/
theorem follows_of_allowed {session : Session} {phase : Phase}
    (allowed : checkPhase session phase = .ok ()) : phase.Follows session.phases := by
  obtain ⟨new, ready⟩ := (checkPhase_ok_iff ..).mp allowed
  refine ⟨fun member => ?_, fun need member => (hasRun_iff ..).mp (ready need member)⟩
  have ran := (hasRun_iff ..).mpr member
  rw [new] at ran
  cases ran

/-- A change of a budget leaves what is known. -/
theorem Traced.budget {set : InstructionSet} {settings : Settings} {session : Session}
    (traced : Traced set settings session) (words : Scalar) (basic : Bool) :
    Traced set settings (session.perform (.budget words basic)) ∧
      (session.perform (.budget words basic)).phases = session.phases := by
  cases changed : setBudget words basic session with
  | ok _ after =>
    have performed : session.perform (.budget words basic) = after := by
      simp [Session.perform, Call.step, changed]
    simp only [setBudget, bind_ok_iff, modify_ok_iff, Run.ofExcept_ok_iff] at changed
    obtain ⟨limit, _, ⟨-, rfl⟩, rfl⟩ := changed
    rw [performed]
    refine ⟨traced.congr ⟨rfl, rfl, rfl, rfl⟩ rfl rfl ?_ ?_, rfl⟩ <;>
      cases basic <;> rfl
  | error failure after =>
    have performed : session.perform (.budget words basic) = after := by
      simp [Session.perform, Call.step, changed]
    simp only [setBudget, bind_error_iff, modify_not_error, and_false, exists_false, or_false,
      Run.ofExcept_error_iff] at changed
    obtain ⟨-, rfl⟩ := changed
    rw [performed]
    exact ⟨traced, rfl⟩

/-- A call leaves what is known; a phase that succeeds in it follows those that have run. -/
theorem Traced.perform {set : InstructionSet} {settings : Settings} {session : Session}
    (traced : Traced set settings session) (wide : Code.leastWidth ≤ settings.width)
    (call : Call) :
    Traced set settings (session.perform call) ∧
      (session.perform call).phases = session.phases ++ (session.succeeds? call).toList ∧
      ∀ phase, session.succeeds? call = some phase → phase.Follows session.phases := by
  cases call with
  | budget words basic =>
    obtain ⟨kept, phases⟩ := traced.budget words basic
    exact ⟨kept, by simp [phases, Session.succeeds?], by simp [Session.succeeds?]⟩
  | phase name =>
    cases ran : runNamed name session with
    | ok block after =>
      have performed : session.perform (.phase name) = after := by
        simp [Session.perform, Call.step, bind, EStateM.bind, ran, pure, EStateM.pure]
      cases known : Phase.ofName? name with
      | none => simp [runNamed, known, Run.refuse] at ran
      | some phase =>
        have one : runOne phase session = .ok block after := by simpa [runNamed, known] using ran
        have succeeds : session.succeeds? (.phase name) = some phase := by
          simp [Session.succeeds?, ran, known]
        obtain ⟨kept, phases⟩ := traced.runOne_ok one
        rw [performed, succeeds]
        refine ⟨kept, phases, fun other same => ?_⟩
        obtain rfl := Option.some.inj same
        exact follows_of_allowed (Generator.runOne_ok one).1
    | error failure after =>
      have performed : session.perform (.phase name) = after := by
        simp [Session.perform, Call.step, bind, EStateM.bind, ran]
      have fails : session.succeeds? (.phase name) = none := by simp [Session.succeeds?, ran]
      rw [performed, fails]
      cases known : Phase.ofName? name with
      | none =>
        have same : session = after := by
          simp only [runNamed, known] at ran
          exact (EStateM.Result.error.inj ran).2
        subst same
        exact ⟨traced, by simp, by simp⟩
      | some phase =>
        have one : runOne phase session = .error failure after := by
          simpa [runNamed, known] using ran
        obtain ⟨kept, phases⟩ := traced.runOne_error wide one
        exact ⟨kept, by simp [phases], by simp⟩

/-- Phases of which each is new and follows those that it needs. -/
def Orderly (phases : List Phase) : Prop :=
  ∀ earlier phase later, phases = earlier ++ phase :: later → phase.Follows earlier

/-- A phase that follows others is in order behind them. -/
theorem Orderly.append {phases : List Phase} {phase : Phase} (orderly : Orderly phases)
    (follows : phase.Follows phases) : Orderly (phases ++ [phase]) := by
  intro earlier other later split
  rcases List.eq_nil_or_concat later with rfl | ⟨front, last, rfl⟩
  · obtain ⟨rfl, same⟩ := List.append_inj' split rfl
    obtain rfl := List.singleton_inj.mp same
    exact follows
  · have shifted : phases ++ [phase] = (earlier ++ other :: front) ++ [last] := by simpa using split
    exact orderly earlier other front (List.append_inj' shifted rfl).1

/-- Before the first call no phase has run. -/
theorem start_phases (set : InstructionSet) (settings : Settings) :
    (Session.start set settings).phases = [] := by
  rw [Session.phases, (start_frame set settings).2.2.2.2, List.map_nil]

/-- Before the first call the phases that have run are in order. -/
theorem Orderly.start (set : InstructionSet) (settings : Settings) :
    Orderly (Session.start set settings).phases := by
  intro earlier phase later split
  simp [start_phases] at split

/-- Calls leave what is known, and the phases that succeed in them are in order. -/
theorem Traced.performAll {set : InstructionSet} {settings : Settings} {session : Session}
    (traced : Traced set settings session) (wide : Code.leastWidth ≤ settings.width)
    (orderly : Orderly session.phases) (calls : List Call) :
    Traced set settings (session.performAll calls) ∧
      (session.performAll calls).phases = session.phases ++ session.succeeded calls ∧
      Orderly (session.phases ++ session.succeeded calls) := by
  induction calls generalizing session with
  | nil => exact ⟨traced, by simp [Session.performAll, Session.succeeded], by
      simpa [Session.succeeded] using orderly⟩
  | cons call rest inductionHypothesis =>
    obtain ⟨kept, phases, follows⟩ := traced.perform wide call
    have still : Orderly (session.perform call).phases := by
      rw [phases]
      cases succeeds : session.succeeds? call with
      | none => simpa using orderly
      | some phase =>
        exact orderly.append (follows phase succeeds)
    obtain ⟨traced, listed, orderly⟩ := inductionHypothesis kept still
    rw [phases, List.append_assoc] at listed orderly
    exact ⟨traced, listed, orderly⟩

/-- Phases that are in order are distinct. -/
theorem Orderly.nodup {phases : List Phase} (orderly : Orderly phases) : phases.Nodup := by
  induction phases using List.reverseRecOn with
  | nil => exact List.nodup_nil
  | append_singleton front last inductionHypothesis =>
    have new : last ∉ front := (orderly front last [] rfl).1
    have ordered : Orderly front := fun earlier phase later split =>
      orderly earlier phase (later ++ [last]) (by simp [split])
    rw [← List.concat_eq_append]
    exact (inductionHypothesis ordered).concat new

/-- Settings that have been accepted have lines of the least width. -/
theorem wide_of_make {verbose : Bool} {indent width budget basicBudget : Scalar}
    {settings : Settings}
    (made : Settings.make verbose indent width budget basicBudget = .ok settings) :
    Code.leastWidth ≤ settings.width := by
  simp only [Settings.make, Results.bind_ok_iff, Results.pure_ok_iff] at made
  obtain ⟨blanks, -, columns, accepted, _, -, _, -, rfl⟩ := made
  unfold Settings.atLeast at accepted
  split at accepted
  · split at accepted
    · simp at accepted
    · next number _ _ =>
      obtain rfl := Except.ok.inj accepted
      show (20 : Int) ≤ (number.toNat : Int)
      omega
  · simp at accepted

/-- A value that is found stands in the list with its key. -/
theorem mem_of_lookup {α : Type} {key : Phase} {value : α} {entries : List (Phase × α)}
    (found : entries.lookup key = some value) : (key, value) ∈ entries := by
  induction entries with
  | nil => cases found
  | cons entry rest inductionHypothesis =>
    rw [lookup_cons_ite] at found
    split at found
    · next same =>
      obtain rfl := Option.some.inj found
      exact same ▸ List.mem_cons_self
    · exact List.mem_cons_of_mem _ (inductionHypothesis found)

/-- A block that is found is the text of the elements that the set decides about. -/
theorem Traced.block {set : InstructionSet} {settings : Settings} {session : Session}
    (traced : Traced set settings session) {phase : Phase} {block : String}
    (found : session.blocks.lookup phase = some block) :
    ∃ elements, canonical set phase = some elements ∧
      Code.render elements settings.indent settings.width (!phase.forHeader) = .ok block :=
  traced.printed (phase, block) (mem_of_lookup found)

/-- Two sessions over one set with the same indentation and width of lines agree on the block of
each phase, whatever phases have been asked for and refused and whatever budgets have been set
in each of them. In each of them a phase succeeds at most once, and behind those that it
needs. -/
theorem blocks_of_histories {set : InstructionSet} {verbose loud : Bool}
    {indent width budget basicBudget otherBudget otherBasicBudget : Scalar}
    {settings others : Settings}
    (made : Settings.make verbose indent width budget basicBudget = .ok settings)
    (remade : Settings.make loud indent width otherBudget otherBasicBudget = .ok others)
    (calls further : List Call) :
    (∀ phase block again,
      ((Session.start set settings).performAll calls).blocks.lookup phase = some block →
      ((Session.start set others).performAll further).blocks.lookup phase = some again →
        block = again) ∧
      Orderly ((Session.start set settings).succeeded calls) ∧
      ((Session.start set settings).succeeded calls).Nodup := by
  obtain ⟨traced, -, orderly⟩ :=
    (Traced.start set settings).performAll (wide_of_make made) (.start set settings) calls
  obtain ⟨retraced, -⟩ :=
    (Traced.start set others).performAll (wide_of_make remade) (.start set others) further
  have layout : others.indent = settings.indent ∧ others.width = settings.width := by
    simp only [Settings.make, Results.bind_ok_iff, Results.pure_ok_iff] at made remade
    obtain ⟨blanks, blanksKnown, columns, columnsKnown, _, -, _, -, rfl⟩ := made
    obtain ⟨blanks', blanksKnown', columns', columnsKnown', _, -, _, -, rfl⟩ := remade
    rw [blanksKnown] at blanksKnown'
    rw [columnsKnown] at columnsKnown'
    exact ⟨(Except.ok.inj blanksKnown').symm, (Except.ok.inj columnsKnown').symm⟩
  rw [start_phases, List.nil_append] at orderly
  refine ⟨fun phase block again found refound => ?_, orderly, orderly.nodup⟩
  obtain ⟨elements, decided, printed⟩ := traced.block found
  obtain ⟨others, same, reprinted⟩ := retraced.block refound
  obtain rfl := Option.some.inj (decided.symm.trans same)
  rw [layout.1, layout.2, printed] at reprinted
  exact Except.ok.inj reprinted

/-- Calls of which many are refused: a phase that does not exist, phases that are asked for too
early or again, and a budget that is none. -/
def impatientCalls : List Call :=
  [.phase "pref_funcs", .phase "prefixes", .phase "inst_funcs", .phase "inst_funcs",
   .budget (.number 0) false, .phase "called_funcs", .budget (.number 8) false,
   .phase "pref_funcs", .phase "called_funcs"]

/-- Calls none of which is refused, with another phase in between. -/
def patientCalls : List Call :=
  [.phase "inst_funcs", .phase "pref_funcs", .phase "inst_mnems", .phase "called_funcs"]

/-- Both ways there are blocks of the functions that instructions share, and they are the
same. -/
theorem blocks_of_impatience : ∃ set, sharingSet = .ok set ∧
    (∀ phase, phase = .orderingFunctions ∨ phase = .routineFunctions →
      ∃ block,
        ((Session.start set .default).performAll impatientCalls).blocks.lookup phase =
          some block ∧
        ((Session.start set .default).performAll patientCalls).blocks.lookup phase =
          some block) ∧
    Orderly ((Session.start set .default).succeeded impatientCalls) ∧
    ((Session.start set .default).succeeded impatientCalls).Nodup := by
  have evaluated : Results.passes (fun set =>
      [Phase.orderingFunctions, .routineFunctions].all fun phase =>
        [impatientCalls, patientCalls].all fun calls =>
          (((Session.start set .default).performAll calls).blocks.lookup phase).isSome)
      sharingSet = true := by
    decide +kernel
  obtain ⟨set, made, succeed⟩ := Results.exists_ok evaluated
  simp only [List.all_cons, List.all_nil, Bool.and_true, Bool.and_eq_true,
    Option.isSome_iff_exists] at succeed
  obtain ⟨⟨⟨first, one⟩, again, two⟩, ⟨third, three⟩, fourth, four⟩ := succeed
  have accepted : Settings.make false (.number 2) (.number 100) (.number 4) (.number 1) =
      .ok .default := rfl
  obtain ⟨agree, orderly, distinct⟩ :=
    @blocks_of_histories set _ _ _ _ _ _ _ _ _ _ accepted accepted impatientCalls patientCalls
  refine ⟨set, made, ?_, orderly, distinct⟩
  rintro phase (rfl | rfl)
  · exact ⟨first, one, (agree _ _ _ one two) ▸ two⟩
  · exact ⟨third, three, (agree _ _ _ three four) ▸ four⟩

end EncoderTables.Generator
