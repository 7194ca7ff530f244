import EncoderTables.Proofs.Generator.Routines
import EncoderTables.Proofs.Sharing.Orders

/-!
# Functions of a complete run

The phases that emit functions leave behind the function of each instruction, of each list of
unordered writes and of each routine that has been requested, and the tables of orders
between them. Unordered writes are requested together with the table of their orders, so each
of their functions has its table. The code of all functions calls shared ones by the numbers
that the ledgers hold in the end, which are those of their functions.
-/

namespace EncoderTables.Generator

open Steps

namespace Emission

/-- There is a table of orders for each list of unordered writes that has been requested. -/
def Tabled (emission : Emission) : Prop :=
  ∀ writes ∈ emission.orderings.keys, writes.length ∈ emission.permutations

/-- A table that is needed is remembered with those that were needed before. -/
theorem mem_need {sizes : List Nat} {size other : Nat} :
    other ∈ Permutation.need sizes size ↔ other ∈ sizes ∨ other = size := by
  unfold Permutation.need
  split
  · next known =>
    rw [List.contains_iff_mem] at known
    constructor
    · exact Or.inl
    · rintro (listed | rfl)
      · exact listed
      · exact known
  · rw [List.mem_append, List.mem_singleton]

/-- No table is needed twice. -/
theorem nodup_need {sizes : List Nat} (distinct : sizes.Nodup) (size : Nat) :
    (Permutation.need sizes size).Nodup := by
  unfold Permutation.need
  split
  · exact distinct
  · next new =>
    rw [List.contains_iff_mem] at new
    exact List.nodup_append.mpr ⟨distinct, List.nodup_singleton size,
      fun _ member _ single same => new (List.mem_singleton.mp single ▸ same ▸ member)⟩

/-- Each effect leaves a table for all unordered writes. -/
theorem Tabled.perform {emission : Emission} (tabled : emission.Tabled) (id : Nat)
    (effect : Effect) : (effect.perform id emission).Tabled := by
  cases effect with
  | ordering writes =>
    intro other member
    refine mem_need.mpr ?_
    rcases emission.orderings.keys_request writes id with same | more
    · exact Or.inl (tabled other (same ▸ member))
    · have listed : other ∈ emission.orderings.keys ++ [writes] := more ▸ member
      rcases List.mem_append.mp listed with known | new
      · exact Or.inl (tabled other known)
      · exact Or.inr (congrArg List.length (List.mem_singleton.mp new))
  | routine target =>
    obtain ⟨extended, -⟩ := emission.requestRoutine_extends none target id
    obtain ⟨orderings, permutations⟩ := extended.shared rfl
    intro other member
    rw [Effect.perform, permutations]
    exact tabled other (orderings ▸ member)
  | use name => exact tabled
  | impose order items => exact tabled
  | fail => exact tabled

/-- So do several effects. -/
theorem Tabled.performAll {emission : Emission} (tabled : emission.Tabled) (id : Nat)
    (effects : List Effect) : (Effect.performAll id effects emission).Tabled := by
  induction effects generalizing emission with
  | nil => exact tabled
  | cons effect rest inductionHypothesis => exact inductionHypothesis (tabled.perform id effect)

/-- Effects need no table of orders twice. -/
theorem nodup_performAll {emission : Emission} (distinct : emission.permutations.Nodup)
    (id : Nat) (effects : List Effect) :
    (Effect.performAll id effects emission).permutations.Nodup := by
  induction effects generalizing emission with
  | nil => exact distinct
  | cons effect rest inductionHypothesis =>
    refine inductionHypothesis ?_
    cases effect with
    | ordering writes => exact nodup_need distinct writes.length
    | routine target =>
      obtain ⟨extended, -⟩ := emission.requestRoutine_extends none target id
      rw [Effect.perform, (extended.shared rfl).2]
      exact distinct
    | use | impose | fail => exact distinct

/-- The functions of shared code request no unordered writes. -/
theorem Tabled.extends {before after : Emission} (tabled : before.Tabled)
    (extended : before.Extends none after) : after.Tabled := by
  obtain ⟨orderings, permutations⟩ := extended.shared rfl
  intro writes member
  rw [permutations]
  exact tabled writes (orderings ▸ member)

end Emission

/-- What each effect keeps, and new emitters do not touch, the functions of instructions
keep. -/
theorem emitInstructions_keep {Kept : Emission → Prop}
    (added : ∀ {emission}, Kept emission → ∀ emitter, Kept (emission.add emitter).2)
    (performed : ∀ {emission}, Kept emission → ∀ id effects,
      Kept (Effect.performAll id effects emission))
    {instructions : List Instruction} {before after : Session} {functions : List Code.Element}
    (made : emitInstructions instructions before = .ok functions after)
    (kept : Kept before.emission) : Kept after.emission := by
  induction instructions generalizing before functions with
  | nil =>
    simp only [emitInstructions, pure_ok_iff] at made
    exact made.2 ▸ kept
  | cons instruction rest inductionHypothesis =>
    obtain ⟨function, written, others, own, remaining, -⟩ := emitInstructions_cons_ok_iff.mp made
    refine inductionHypothesis remaining ?_
    show Kept written
    rw [(instructionFunction_wrote own).1]
    exact performed (added kept (.fresh (some instruction) (.listed []))) _ _

/-- The functions and the tables of orders that a session has left, in which calls name shared
functions by the numbers of the ledgers. -/
structure Session.Emits (set : InstructionSet) (session : Session)
    (instructions orderings routines : List Code.Element) : Prop where
  instructionsFound : session.elements.lookup .instructionFunctions = some instructions
  orderingsFound : session.elements.lookup .orderingFunctions = some orderings
  tablesFound : session.elements.lookup .permutationTables =
    some (session.emission.permutations.map permutationTable)
  routinesFound : session.elements.lookup .routineFunctions = some routines
  instructions : List.Forall₂ (IsInstruction session.emission.numbers) set.instructions
    instructions
  orderings : List.Forall₂ (fun entry => IsOrdering session.emission.numbers entry.1 entry.2)
    session.emission.orderings.keys.zipIdx orderings
  routines : List.Forall₂ (fun entry => IsRoutine session.emission.numbers entry.1 entry.2)
    session.emission.routines.keys.zipIdx routines
  tabled : session.emission.Tabled
  distinct : session.emission.permutations.Nodup

/-- A phase that has run has produced its elements from what had been found out before. -/
theorem runOne_leaves {phase : Phase} {before after : Session} {block : String}
    (ran : runOne phase before = .ok block after) :
    ∃ start elements produced, produce phase start = .ok elements produced ∧
      start.set = before.set ∧ start.emission = before.emission ∧
      after.emission = produced.emission ∧
      after.elements = before.elements ++ [(phase, elements)] := by
  obtain ⟨-, log, elements, produced, made, rfl⟩ := runOne_ok ran
  refine ⟨_, elements, produced, made, rfl, rfl, rfl, ?_⟩
  rw [produce_changes made]

/-- The functions of unordered writes are those of all that have been requested. -/
theorem runOne_orderings_are {before after : Session} {block : String} {numbers : Numbers}
    (ran : runOne .orderingFunctions before = .ok block after)
    (numbered : after.emission.Numbered numbers) :
    ∃ functions, after.elements = before.elements ++ [(.orderingFunctions, functions)] ∧
      before.emission.Extends none after.emission ∧
      List.Forall₂ (fun entry => IsOrdering numbers entry.1 entry.2)
        after.emission.orderings.keys.zipIdx functions := by
  obtain ⟨start, functions, produced, made, -, same, reached, elements⟩ := runOne_leaves ran
  have extended := ((produce_resumes (by decide)).ok made).emission
  rw [same, ← reached] at extended
  refine ⟨functions, elements, extended, ?_⟩
  rw [produce_orderingFunctions, Run.emit_ok_iff] at made
  obtain ⟨emission, made, rfl⟩ := made
  rw [(extended.shared rfl).1, ← same]
  rw [reached] at numbered
  exact emitOrderings_are made numbered

/-- The functions of routines are those of all that have been requested. -/
theorem runOne_routines_are {before after : Session} {block : String}
    (consistent : before.emission.Consistent none) (fresh : before.emission.emitted = [])
    (ran : runOne .routineFunctions before = .ok block after) :
    ∃ functions, after.elements = before.elements ++ [(.routineFunctions, functions)] ∧
      before.emission.Extends none after.emission ∧
      List.Forall₂ (fun entry => IsRoutine after.emission.numbers entry.1 entry.2)
        after.emission.routines.keys.zipIdx functions := by
  obtain ⟨start, functions, produced, made, -, same, reached, elements⟩ := runOne_leaves ran
  have extended := ((produce_resumes (by decide)).ok made).emission
  rw [same, ← reached] at extended
  refine ⟨functions, elements, extended, ?_⟩
  rw [produce_routineFunctions, Run.emit_ok_iff] at made
  obtain ⟨emission, made, rfl⟩ := made
  rw [same] at made
  have size := emitRoutines_size consistent fresh made
  rw [emitRoutines_eq] at made
  have all := emitRoutinesWithin_are made emission.numbers_numbered
  rw [List.drop_zero, List.take_of_length_le] at all
  · rwa [reached]
  · rw [Ledger.keys, List.length_map, ← size]
    exact Nat.le_refl _

/-- The phases that emit functions leave those of all that has been requested. -/
theorem runAll_emits {set : InstructionSet} {settings : Settings} {after : Session}
    (ran : runAll (emissionPhases.map Phase.name) (.start set settings) = .ok () after) :
    ∃ instructions orderings routines, after.Emits set instructions orderings routines := by
  simp only [emissionPhases, List.map_cons, List.map_nil, runAll, bind_ok_iff, runNamed_name,
    pure_ok_iff] at ran
  obtain ⟨_, first, one, _, second, two, _, third, three, _, fourth, four, -, rfl⟩ := ran
  obtain ⟨origin, empty, unnumbered, -, unfilled⟩ := start_frame set settings
  obtain ⟨emitted, new, -⟩ := runOne_instructions empty unnumbered one
  obtain ⟨shared, fresh, -⟩ := runOne_orderings emitted.consistent two
  have unchanged := (runOne_agrees rfl three).emission
  have consistent : third.emission.Consistent none := unchanged ▸ shared.consistent
  have unregistered : third.emission.emitted = [] := unchanged ▸ fresh.trans new
  obtain ⟨routines, routinesLeft, finished, areRoutines⟩ :=
    runOne_routines_are consistent unregistered four
  have numbered := fourth.emission.numbers_numbered
  obtain ⟨orderings, orderingsLeft, resumed, areOrderings⟩ :=
    runOne_orderings_are two (unchanged ▸ numbered.earlier finished)
  obtain ⟨reading, tables, read, madeTables, -, known, -, tablesLeft⟩ := runOne_leaves three
  obtain ⟨start, instructions, own, made, source, begun, reached, left⟩ := runOne_leaves one
  rw [produce_instructionFunctions, source, origin] at made
  have tabled : first.emission.Tabled := by
    rw [reached]
    refine emitInstructions_keep (fun kept _ => kept) (fun kept => kept.performAll) made ?_
    rw [begun, empty]
    exact fun _ member => absurd member List.not_mem_nil
  have distinct : first.emission.permutations.Nodup := by
    rw [reached]
    refine @emitInstructions_keep (fun emission => emission.permutations.Nodup)
      (fun kept _ => kept) (fun kept => Emission.nodup_performAll kept) _ _ _ _ made ?_
    rw [begun, empty]
    exact List.nodup_nil
  have extended : first.emission.Extends none fourth.emission :=
    resumed.trans (unchanged ▸ finished)
  have elements : fourth.elements =
      [(.instructionFunctions, instructions), (.orderingFunctions, orderings),
        (.permutationTables, tables), (.routineFunctions, routines)] := by
    rw [routinesLeft, tablesLeft, orderingsLeft, left, unfilled]
    rfl
  rw [produce_permutationTables] at madeTables
  obtain ⟨rfl, -⟩ := EStateM.Result.ok.inj madeTables
  refine ⟨instructions, orderings, routines, ?_⟩
  constructor
  case instructionsFound => rw [elements]; rfl
  case orderingsFound => rw [elements]; rfl
  case routinesFound => rw [elements]; rfl
  case tablesFound =>
    rw [elements, (finished.shared rfl).2, ← unchanged, ← known]
    rfl
  case instructions => exact emitInstructions_are made (reached ▸ numbered.earlier extended)
  case orderings =>
    rw [(finished.shared rfl).1, ← unchanged]
    exact areOrderings
  case routines => exact areRoutines
  case tabled => exact tabled.extends extended
  case distinct =>
    rw [(extended.shared rfl).2]
    exact distinct

/-- A complete run leaves the functions of all that has been requested. -/
theorem generate_emits {set : InstructionSet} {settings : Settings} {final : Session}
    (ran : generate (.start set settings) = .ok () final) :
    ∃ instructions orderings routines, final.Emits set instructions orderings routines := by
  have phases : Phase.all.map Phase.name =
      emissionPhases.map Phase.name ++ descriptionPhases.map Phase.name := rfl
  rw [generate_eq, phases] at ran
  obtain ⟨middle, emitting, describing⟩ := (runAll_append_ok_iff ..).mp ran
  obtain ⟨instructions, orderings, routines, emits⟩ := runAll_emits emitting
  obtain ⟨agrees, kept, -⟩ := runAll_describes (by decide) describing
  refine ⟨instructions, orderings, routines, ?_⟩
  constructor
  case instructionsFound => exact kept _ _ emits.instructionsFound
  case orderingsFound => exact kept _ _ emits.orderingsFound
  case routinesFound => exact kept _ _ emits.routinesFound
  case tablesFound => exact agrees.emission ▸ kept _ _ emits.tablesFound
  case instructions => exact agrees.emission ▸ emits.instructions
  case orderings => exact agrees.emission ▸ emits.orderings
  case routines => exact agrees.emission ▸ emits.routines
  case tabled => exact agrees.emission ▸ emits.tabled
  case distinct => exact agrees.emission ▸ emits.distinct

end EncoderTables.Generator
