import EncoderTables.Proofs.Generator.Runs

/-!
# Blocks of phases

Producing the elements of a phase changes what has been found out and the log, and nothing
else. What a phase leaves behind, its elements and their text, is therefore still there when
all others have run, and in a complete run both can be traced back to the moment at which
they were made.
-/

namespace EncoderTables.Generator

open Steps

/-- The functions of instructions change what has been emitted and nothing else. -/
theorem emitInstructions_frame {instructions : List Instruction} {before after : Session}
    {functions : List Code.Element}
    (made : emitInstructions instructions before = .ok functions after) :
    after = { before with
      emission := after.emission, instructionEmitters := after.instructionEmitters } := by
  induction instructions generalizing before functions with
  | nil =>
    simp only [emitInstructions, pure_ok_iff] at made
    rw [← made.2]
  | cons instruction rest inductionHypothesis =>
    obtain ⟨_, _, _, -, remaining, -⟩ := emitInstructions_cons_ok_iff.mp made
    have later := inductionHypothesis remaining
    exact later

/-- Producing elements changes what has been found out and the log. -/
theorem produce_changes {phase : Phase} {before after : Session} {elements : List Code.Element}
    (made : produce phase before = .ok elements after) :
    after = { before with
      emission := after.emission
      instructionEmitters := after.instructionEmitters
      registry := after.registry
      log := after.log } := by
  cases kind : phase.emits with
  | false => rw [produce_frame kind made]
  | true =>
    cases phase with
    | instructionFunctions =>
      rw [produce_instructionFunctions] at made
      rw [emitInstructions_frame made]
    | orderingFunctions =>
      rw [produce_orderingFunctions, Run.emit_ok_iff] at made
      obtain ⟨_, -, rfl⟩ := made
      rfl
    | routineFunctions =>
      rw [produce_routineFunctions, Run.emit_ok_iff] at made
      obtain ⟨_, -, rfl⟩ := made
      rfl
    | _ => simp [Phase.emits] at kind

/-- Domains are registered for the parameter tables alone. -/
theorem produce_registry {phase : Phase} (other : phase ≠ .parameters) {before after : Session}
    {elements : List Code.Element} (made : produce phase before = .ok elements after) :
    after.registry = before.registry := by
  cases phase with
  | parameters => exact absurd rfl other
  | instructionFunctions =>
    rw [produce_instructionFunctions] at made
    rw [emitInstructions_frame made]
  | parameterStructures =>
    obtain ⟨full, basic, _, first, second, -⟩ := produce_parameterStructures_ok_iff.mp made
    rw [parameterStructure_frame second, parameterStructure_frame first]
  | orderingFunctions =>
    rw [produce_orderingFunctions, Run.emit_ok_iff] at made
    obtain ⟨_, -, rfl⟩ := made
    rfl
  | routineFunctions =>
    rw [produce_routineFunctions, Run.emit_ok_iff] at made
    obtain ⟨_, -, rfl⟩ := made
    rfl
  | _ =>
    simp only [produce, bind_ok_iff, get_ok_iff, pure_ok_iff, Run.ofExcept_ok_iff] at made
    simp_all

/-- Phases that have run after others leave the elements and the blocks of these. -/
theorem runAll_extends {phases : List Phase} {before after : Session}
    (ran : runAll (phases.map Phase.name) before = .ok () after) :
    after.settings = before.settings ∧
      (∃ elements, after.elements = before.elements ++ elements ∧ elements.map (·.1) = phases) ∧
      ∃ blocks, after.blocks = before.blocks ++ blocks ∧ blocks.map (·.1) = phases := by
  induction phases generalizing before with
  | nil =>
    simp only [List.map_nil, runAll, pure_ok_iff] at ran
    obtain ⟨-, rfl⟩ := ran
    simp
  | cons phase rest inductionHypothesis =>
    simp only [List.map_cons, runAll, bind_ok_iff, runNamed_name, runOne_ok_iff] at ran
    obtain ⟨block, _, ⟨-, elements, produced, made, -, rfl⟩, others⟩ := ran
    obtain ⟨settings, ⟨listed, later, rfl⟩, blocks, printed, keys⟩ := inductionHypothesis others
    have former := produce_changes made
    rw [tell_frame] at former
    refine ⟨?_, ⟨(phase, elements) :: listed, ?_, by simp⟩, (phase, block) :: blocks, ?_,
      by simp [keys]⟩
    · rw [settings, former]
    · rw [later, former]
      simp
    · rw [printed, former]
      simp

/-- Domains stay registered as long as no parameter tables are produced. -/
theorem runAll_registry {phases : List Phase} (others : .parameters ∉ phases)
    {before after : Session} (ran : runAll (phases.map Phase.name) before = .ok () after) :
    after.registry = before.registry := by
  induction phases generalizing before with
  | nil =>
    simp only [List.map_nil, runAll, pure_ok_iff] at ran
    rw [← ran.2]
  | cons phase rest inductionHypothesis =>
    simp only [List.mem_cons, not_or] at others
    simp only [List.map_cons, runAll, bind_ok_iff, runNamed_name, runOne_ok_iff] at ran
    obtain ⟨block, _, ⟨-, elements, produced, made, -, rfl⟩, remaining⟩ := ran
    have first := produce_registry (Ne.symm others.1) made
    rw [inductionHypothesis others.2 remaining, first, tell_frame]

/-- A key that none of the entries before has is found where it stands. -/
theorem lookup_behind {α : Type} {before after : List (Phase × α)} {phase : Phase} {value : α}
    (new : phase ∉ before.map (·.1)) :
    (before ++ (phase, value) :: after).lookup phase = some value := by
  induction before with
  | nil => simp
  | cons entry rest inductionHypothesis =>
    obtain ⟨first, other⟩ := entry
    simp only [List.map_cons, List.mem_cons, not_or] at new
    rw [List.cons_append, lookup_cons_ite, if_neg new.1]
    exact inductionHypothesis new.2

/-- In a complete run the elements of a phase and their text were made at one moment, and both
are still there at its end. -/
theorem generate_made {set : InstructionSet} {settings : Settings} {final : Session}
    (ran : generate (.start set settings) = .ok () final) {phase : Phase}
    {first rest : List Phase} (split : Phase.all = first ++ phase :: rest) :
    ∃ before elements block produced,
      runAll (first.map Phase.name) (.start set settings) = .ok () before ∧
      produce phase (before.tell ("\t\tTranslating " ++ phase.title ++ "...")) =
        .ok elements produced ∧
      Code.render elements final.settings.indent final.settings.width (!phase.forHeader) =
        .ok block ∧
      runAll (rest.map Phase.name) { produced with
        elements := produced.elements ++ [(phase, elements)]
        blocks := produced.blocks ++ [(phase, block)] } = .ok () final ∧
      final.elements.lookup phase = some elements ∧ final.blocks.lookup phase = some block := by
  have names : Phase.all.map Phase.name =
      first.map Phase.name ++ (phase :: rest).map Phase.name := by rw [split, List.map_append]
  rw [generate_eq, names] at ran
  obtain ⟨before, earlier, later⟩ := (runAll_append_ok_iff ..).mp ran
  simp only [List.map_cons, runAll, bind_ok_iff, runNamed_name, runOne_ok_iff] at later
  obtain ⟨block, _, ⟨-, elements, produced, made, printed, rfl⟩, others⟩ := later
  obtain ⟨-, ⟨former, listed, formerKeys⟩, texts, written, textKeys⟩ := runAll_extends earlier
  obtain ⟨settled, ⟨further, found, -⟩, furtherTexts, foundTexts, -⟩ := runAll_extends others
  have unchanged := produce_changes made
  rw [tell_frame] at unchanged
  have new : phase ∉ first := by
    have distinct : Phase.all.Nodup := by decide
    rw [split] at distinct
    exact fun member => (List.nodup_append.mp distinct).2.2 phase member phase
      List.mem_cons_self rfl
  have fresh : (Session.start set settings).elements = [] ∧
      (Session.start set settings).blocks = [] := by
    rw [Session.start, tell_frame]
    exact ⟨rfl, rfl⟩
  rw [fresh.1, List.nil_append] at listed
  rw [fresh.2, List.nil_append] at written
  refine ⟨before, elements, block, produced, earlier, made, ?_, others, ?_, ?_⟩
  · rwa [settled]
  · rw [found, unchanged, listed, List.append_assoc]
    exact lookup_behind (formerKeys ▸ new)
  · rw [foundTexts, unchanged, written, List.append_assoc]
    exact lookup_behind (textKeys ▸ new)

end EncoderTables.Generator
