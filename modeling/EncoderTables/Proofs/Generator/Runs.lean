import EncoderTables.Proofs.Generator.Completeness
import EncoderTables.Proofs.Generator.OwnBodies
import EncoderTables.Proofs.Generator.ParameterTables
import EncoderTables.Proofs.Generator.Scheduling
import EncoderTables.Proofs.Results

/-!
# Complete runs

A complete run performs all phases in the order of their declaration. The phases that emit
functions come first and leave a complete emission behind; all later phases describe what
has been emitted and change nothing about it, so each of them reads the same instructions
with the same parameters.
-/

namespace EncoderTables.Generator

open Steps

/-- The schedule of the declared phases is their declared order. -/
theorem order_declared {graphs : Graphs} (documented : graphs.Documented) :
    Schedule.order graphs Phase.declared = .ok (Phase.all.map Phase.name) :=
  Schedule.order_of_declared documented
    (Schedule.isOrder_declared (by decide +kernel) (by decide +kernel))

/-- With any library of graphs that does what is documented, a complete run performs the phases in
their declared order, so no run depends on the library. -/
theorem generateBy_eq {graphs : Graphs} (documented : graphs.Documented) :
    generateBy graphs = runAll (Phase.all.map Phase.name) := by
  rw [generateBy, order_declared documented]
  rfl

/-- A complete run performs the phases in their declared order. -/
theorem generate_eq : generate = runAll (Phase.all.map Phase.name) :=
  generateBy_eq listGraphs_documented

/-- A phase is found by its name. -/
@[simp]
theorem ofName?_name (phase : Phase) : Phase.ofName? phase.name = some phase := by
  cases phase <;> decide

/-- The phase of a name is run by its name. -/
@[simp]
theorem runNamed_name (phase : Phase) : runNamed phase.name = runOne phase := by
  simp [runNamed]

/-- Telling what is done only changes the log. -/
theorem tell_frame (session : Session) (line : String) :
    session.tell line = { session with log := (session.tell line).log } := by
  unfold Session.tell
  split <;> rfl

/-- A phase is allowed when it has not run and all that it needs have. -/
theorem checkPhase_ok_iff (session : Session) (phase : Phase) :
    checkPhase session phase = .ok () ↔
      session.hasRun phase = false ∧ ∀ need ∈ phase.needs, session.hasRun need = true := by
  unfold checkPhase
  split
  · next repeated => simp [repeated, refuse]
  · next new =>
    split
    · next need missing =>
      have absent := List.find?_some missing
      simp only [Bool.not_eq_true'] at absent
      simp only [refuse, reduceCtorEq, false_iff, not_and, not_forall]
      exact fun _ => ⟨need, List.mem_of_find?_eq_some missing, by simp [absent]⟩
    · next ready => simpa [new] using ready

/-- A phase that runs has been allowed to, and leaves its elements and their text. -/
theorem runOne_ok {phase : Phase} {before after : Session} {block : String}
    (ran : runOne phase before = .ok block after) :
    checkPhase before phase = .ok () ∧ ∃ log elements produced,
      produce phase { before with log := log } = .ok elements produced ∧
      after = { produced with
        elements := produced.elements ++ [(phase, elements)]
        blocks := produced.blocks ++ [(phase, block)] } := by
  obtain ⟨allowed, elements, produced, made, -, rfl⟩ := (runOne_ok_iff ..).mp ran
  exact ⟨allowed, (before.tell ("\t\tTranslating " ++ phase.title ++ "...")).log, elements,
    produced, tell_frame .. ▸ made, rfl⟩

/-- Phases after phases. -/
theorem runAll_append_ok_iff (first second : List String) (before after : Session) :
    runAll (first ++ second) before = .ok () after ↔
      ∃ middle, runAll first before = .ok () middle ∧ runAll second middle = .ok () after := by
  induction first generalizing before with
  | nil => simp [runAll]
  | cons name rest inductionHypothesis =>
    simp only [List.cons_append, runAll, bind_ok_iff, inductionHypothesis]
    constructor
    · rintro ⟨block, found, ran, middle, others, later⟩
      exact ⟨middle, ⟨block, found, ran, others⟩, later⟩
    · rintro ⟨middle, ⟨block, found, ran, others⟩, later⟩
      exact ⟨block, found, ran, middle, others, later⟩

/-- The declaration of a parameter structure is told and changes nothing else. -/
theorem parameterStructure_frame {basic : Bool} {before after : Session}
    {declaration : Code.Element}
    (made : parameterStructure basic before = .ok declaration after) :
    after = { before with log := after.log } := by
  obtain ⟨layout, -, -, rfl⟩ := parameterStructure_ok_iff.mp made
  exact tell_frame ..

/-- The phases that emit functions. -/
def Phase.emits : Phase → Bool
  | .instructionFunctions | .orderingFunctions | .routineFunctions => true
  | _ => false

/-- A phase that emits no function changes nothing but the registry and the log. -/
theorem produce_frame {phase : Phase} (describes : phase.emits = false) {before after : Session}
    {elements : List Code.Element} (made : produce phase before = .ok elements after) :
    after = { before with registry := after.registry, log := after.log } := by
  cases phase with
  | instructionFunctions => simp [Phase.emits] at describes
  | orderingFunctions => simp [Phase.emits] at describes
  | routineFunctions => simp [Phase.emits] at describes
  | parameters =>
    rw [produce_parameters] at made
    obtain ⟨-, -, rfl⟩ := parameterTables_ok made
    rfl
  | parameterStructures =>
    obtain ⟨full, basic, _, first, second, -⟩ := produce_parameterStructures_ok_iff.mp made
    rw [parameterStructure_frame second, parameterStructure_frame first]
  | _ =>
    simp only [produce, bind_ok_iff, get_ok_iff, pure_ok_iff, Run.ofExcept_ok_iff] at made
    simp_all

/-- Two moments of a run at which the same instructions have been encoded in the same way. -/
structure Session.Agrees (earlier later : Session) : Prop where
  set : earlier.set = later.set
  emission : earlier.emission = later.emission
  instructionEmitters : earlier.instructionEmitters = later.instructionEmitters

/-- The same instructions with the same emitters are encoded. -/
theorem Session.Agrees.encoded_eq {earlier later : Session} (agrees : earlier.Agrees later) :
    earlier.encoded = later.encoded := by
  rw [Session.encoded, Session.encoded, agrees.instructionEmitters, agrees.emission]

/-- A phase that emits no function leaves what has been encoded. -/
theorem runOne_agrees {phase : Phase} (describes : phase.emits = false)
    {before after : Session} {block : String} (ran : runOne phase before = .ok block after) :
    before.Agrees after := by
  obtain ⟨-, log, elements, produced, made, rfl⟩ := runOne_ok ran
  rw [produce_frame describes made]
  exact ⟨rfl, rfl, rfl⟩

/-- The elements of a phase come from a moment that agrees with the end of the run. -/
def Described (phase : Phase) (final : Session) : Prop :=
  ∃ start finish elements, start.Agrees final ∧ produce phase start = .ok elements finish ∧
    final.elements.lookup phase = some elements

/-- Elements of a phase stay when other phases leave theirs. -/
theorem lookup_append {κ α : Type} [BEq κ] (key : κ) (first second : List (κ × α)) :
    (first ++ second).lookup key = (first.lookup key).or (second.lookup key) := by
  induction first with
  | nil => simp
  | cons entry rest inductionHypothesis =>
    obtain ⟨known, value⟩ := entry
    simp only [List.cons_append, List.lookup_cons, inductionHypothesis]
    split <;> simp

/-- Phases that emit no functions describe what has been emitted. -/
theorem runAll_describes {phases : List Phase} (describe : ∀ phase ∈ phases, phase.emits = false)
    {before after : Session} (ran : runAll (phases.map Phase.name) before = .ok () after) :
    before.Agrees after ∧
      (∀ phase elements, before.elements.lookup phase = some elements →
        after.elements.lookup phase = some elements) ∧
      ∀ phase ∈ phases, Described phase after := by
  induction phases generalizing before with
  | nil =>
    simp only [List.map_nil, runAll, pure_ok_iff] at ran
    obtain ⟨-, rfl⟩ := ran
    exact ⟨⟨rfl, rfl, rfl⟩, fun _ _ found => found, by simp⟩
  | cons phase rest inductionHypothesis =>
    simp only [List.map_cons, runAll, bind_ok_iff, runNamed_name] at ran
    obtain ⟨block, middle, one, others⟩ := ran
    obtain ⟨allowed, log, elements, produced, made, rfl⟩ := runOne_ok one
    have frame := produce_frame (describe phase List.mem_cons_self) made
    have former : produced.elements = before.elements := by rw [frame]
    obtain ⟨agrees, kept, described⟩ := inductionHypothesis
      (fun other member => describe other (List.mem_cons_of_mem _ member)) others
    have start : Session.Agrees { before with log := log } after := by
      refine ⟨?_, ?_, ?_⟩
      · rw [← agrees.set, frame]
      · rw [← agrees.emission, frame]
      · rw [← agrees.instructionEmitters, frame]
    refine ⟨⟨start.set, start.emission, start.instructionEmitters⟩, ?_, ?_⟩
    · intro other known found
      refine kept other known ?_
      rw [lookup_append, former, found]
      rfl
    · intro other member
      rcases List.mem_cons.mp member with rfl | member
      · refine ⟨_, _, elements, start, made, kept other elements ?_⟩
        have absent : before.elements.lookup other = none := by
          simpa [Session.hasRun] using ((checkPhase_ok_iff ..).mp allowed).1
        rw [lookup_append, former, absent]
        simp
      · exact described other member

open Emission

/-- Nothing has been emitted before the first phase. -/
theorem start_frame (set : InstructionSet) (settings : Settings) :
    (Session.start set settings).set = set ∧ (Session.start set settings).emission = .empty ∧
      (Session.start set settings).instructionEmitters = [] ∧
      (Session.start set settings).settings = settings ∧
      (Session.start set settings).elements = [] := by
  rw [Session.start, tell_frame]
  exact ⟨rfl, rfl, rfl, rfl, rfl⟩

/-- The functions of instructions are emitted before all others. -/
theorem runOne_instructions {before after : Session} {block : String}
    (none : before.emission = .empty) (unnumbered : before.instructionEmitters = [])
    (ran : runOne .instructionFunctions before = .ok block after) :
    Emitted (before.set.instructions.map ownPlace) .empty after.emission ∧
      after.emission.emitted = [] ∧
      after.emission.emitters = before.set.instructions.map Emitter.ofBody ∧
      after.set = before.set ∧
      after.instructionEmitters = List.range before.set.instructions.length := by
  obtain ⟨-, log, elements, produced, made, rfl⟩ := runOne_ok ran
  rw [produce_instructionFunctions] at made
  have unshared : (Emission.empty).Unshared := by simp [Unshared, Emission.places, Emission.empty]
  obtain ⟨emitted, fresh, emitters, frame⟩ := emitInstructions_emitted
    (by simpa only [none] using empty_consistent) (by simpa only [none] using unshared)
    (by simp only [none]; rfl) made
  simp only [none] at emitted emitters frame
  refine ⟨emitted, fresh, emitters, by rw [frame], ?_⟩
  rw [frame]
  simp [unnumbered, Emission.empty, List.range_eq_range']

/-- The functions of unordered writes follow. -/
theorem runOne_orderings {before after : Session} {block : String}
    (consistent : before.emission.Consistent none)
    (ran : runOne .orderingFunctions before = .ok block after) :
    Emitted ((List.range' 0 before.emission.orderings.size).map fun ordering =>
        (none, .ofOrdering ordering)) before.emission after.emission ∧
      after.emission.emitted = before.emission.emitted ∧
      after.set = before.set ∧ after.instructionEmitters = before.instructionEmitters := by
  obtain ⟨-, log, elements, produced, made, rfl⟩ := runOne_ok ran
  rw [produce_orderingFunctions, Run.emit_ok_iff] at made
  obtain ⟨emission, made, rfl⟩ := made
  obtain ⟨emitted, fresh⟩ := emitOrderings_emitted consistent rfl made
  exact ⟨emitted, fresh, rfl, rfl⟩

/-- The functions of routines are emitted last. -/
theorem runOne_routines {before after : Session} {block : String}
    (consistent : before.emission.Consistent none) (fresh : before.emission.emitted = [])
    (ran : runOne .routineFunctions before = .ok block after) :
    (∃ added, (∀ place ∈ added, place.1 = none) ∧
        Emitted added before.emission after.emission) ∧
      (∀ routine < after.emission.routines.size,
        (after.emission.emitted.lookup routine).isSome = true) ∧
      after.set = before.set ∧ after.instructionEmitters = before.instructionEmitters := by
  obtain ⟨-, log, elements, produced, made, rfl⟩ := runOne_ok ran
  rw [produce_routineFunctions, Run.emit_ok_iff] at made
  obtain ⟨emission, made, rfl⟩ := made
  obtain ⟨emitted, complete⟩ := emitRoutines_emitted consistent fresh made
  exact ⟨emitted, complete, rfl, rfl⟩

/-- Each instruction of a set has the emitter of its position. -/
structure Listed (set : InstructionSet) (session : Session) : Prop where
  numbered : session.instructionEmitters = List.range set.instructions.length
  placed : ∀ (position : Nat) (instruction : Instruction),
    set.instructions[position]? = some instruction →
      session.emission.places[position]? = some (ownPlace instruction)

/-- What the functions of a set leave behind: a complete emission, in which each
instruction has the emitter of its position, whose domains are those of its own body and
whose parameters begin with those of its own body. -/
structure Encoded (set : InstructionSet) (session : Session) : Prop
    extends Listed set session where
  source : session.set = set
  complete : session.emission.Complete
  own : ∀ (position : Nat) (instruction : Instruction),
    set.instructions[position]? = some instruction →
      session.emission.domainsOf position = imposedBy (Node.groupsAll instruction.encoding) ∧
        missingNames [] (Node.bodyReadsAll instruction.encoding) <+:
          session.emission.namesOf position

/-- Instructions whose functions are the only ones have the emitters of their positions. -/
theorem Listed.of_emitted {set : InstructionSet} {session : Session}
    (emitted : Emitted (set.instructions.map ownPlace) .empty session.emission)
    (numbered : session.instructionEmitters = List.range set.instructions.length) :
    Listed set session := by
  refine ⟨numbered, fun position instruction found => ?_⟩
  rw [emitted.places]
  simp [Emission.places, Emission.empty, found]

/-- Further functions leave the emitters of instructions at their positions. -/
theorem Listed.grown {set : InstructionSet} {before after : Session}
    (listed : Listed set before) (grown : Emission.Grown before.emission after.emission)
    (numbers : after.instructionEmitters = before.instructionEmitters) : Listed set after :=
  ⟨numbers.trans listed.numbered, fun position instruction found =>
    grown.getElem?_places (listed.placed position instruction found)⟩

/-- The phases that emit functions, and the tables of orders between them. -/
def emissionPhases : List Phase :=
  [.instructionFunctions, .orderingFunctions, .permutationTables, .routineFunctions]

/-- The functions of an instruction set are emitted completely. -/
theorem runAll_encodes {set : InstructionSet} {settings : Settings} {after : Session}
    (ran : runAll (emissionPhases.map Phase.name) (.start set settings) = .ok () after) :
    Encoded set after := by
  simp only [emissionPhases, List.map_cons, List.map_nil, runAll, bind_ok_iff, runNamed_name,
    pure_ok_iff] at ran
  obtain ⟨_, first, one, _, second, two, _, third, three, _, fourth, four, -, rfl⟩ := ran
  obtain ⟨origin, empty, unnumbered, -⟩ := start_frame set settings
  obtain ⟨instructions, none, emitters, source, numbered⟩ :=
    runOne_instructions empty unnumbered one
  rw [origin] at instructions emitters source numbered
  obtain ⟨orderings, fresh, sameSet, sameNumbers⟩ :=
    runOne_orderings instructions.consistent two
  have agrees := runOne_agrees rfl three
  rw [agrees.emission] at orderings fresh
  obtain ⟨⟨added, unowned, routines⟩, registered, lastSet, lastNumbers⟩ :=
    runOne_routines orderings.consistent (fresh.trans none) four
  have later := orderings.trans routines
  have listed : Listed set first := .of_emitted instructions numbered
  refine ⟨listed.grown later.grown ?_, ?_, ⟨routines.consistent, registered, ?_⟩, ?_⟩
  · rw [lastNumbers, ← agrees.instructionEmitters, sameNumbers]
  · rw [lastSet, ← agrees.set, sameSet, source]
  · intro ordering inside
    rw [routines.orderings unowned,
      orderings.orderings (by simp), Ledger.size] at inside
    refine ⟨first.emission.places.length + ordering, routines.grown.getElem?_places ?_⟩
    rw [orderings.places, List.getElem?_append_right (Nat.le_add_right ..)]
    simp [Ledger.size, List.getElem?_range' inside]
  · intro position instruction found
    have own : first.emission.emitters[position]? = some (.ofBody instruction) := by
      simp [emitters, found]
    have inside := (List.getElem?_eq_some_iff.mp own).1
    refine ⟨?_, ?_⟩
    · rw [later.domains position inside, domainsOf, own]
      exact Emitter.ofBody_domains instruction
    · have names : first.emission.namesOf position =
          missingNames [] (Node.bodyReadsAll instruction.encoding) := by
        rw [namesOf, own]
        exact Emitter.ofBody_parameters instruction
      exact names ▸ later.grown.names position

/-- The entries that are found one after the other make up the whole list. -/
theorem filterMap_range_getElem? {α : Type} (members : List α) :
    (List.range members.length).filterMap (fun position => members[position]?) = members := by
  have each : (List.range members.length).map (fun position => members[position]?) =
      members.map some := by
    apply List.ext_getElem?
    intro position
    rcases Nat.lt_or_ge position members.length with inside | outside
    · simp [List.getElem?_range inside, List.getElem?_eq_getElem inside]
    · simp [outside]
  calc (List.range members.length).filterMap (fun position => members[position]?)
      = ((List.range members.length).map fun position => members[position]?).filterMap id := by
        rw [List.filterMap_map]
        rfl
    _ = members := by
        rw [each, List.filterMap_map]
        simp

/-- There is an emitter for each instruction. -/
theorem Listed.size_le {set : InstructionSet} {session : Session}
    (listed : Listed set session) :
    set.instructions.length ≤ session.emission.emitters.length := by
  by_contra short
  have last := Nat.lt_of_not_le short
  have found := listed.placed _ _ (List.getElem?_eq_getElem last)
  have inside := (List.getElem?_eq_some_iff.mp found).1
  simp at inside

/-- Each encoded instruction has the emitter of its position. -/
theorem Listed.encoded_eq {set : InstructionSet} {session : Session}
    (listed : Listed set session) :
    session.encoded = set.instructions.zip session.emission.emitters := by
  have each : ∀ position ∈ List.range set.instructions.length,
      (session.emission.emitters[position]?.bind fun emitter =>
        emitter.instruction.map fun instruction => (instruction, emitter)) =
        (set.instructions.zip session.emission.emitters)[position]? := by
    intro position ranged
    have inside := List.mem_range.mp ranged
    have member := List.getElem?_eq_getElem inside
    have found := listed.placed position _ member
    obtain ⟨emitter, known, owner⟩ := getElem?_of_place found
    rw [known, List.getElem?_zip_eq_some (z := (_, emitter)).mpr ⟨member, known⟩]
    simp [owner, ownPlace]
  have size : (set.instructions.zip session.emission.emitters).length =
      set.instructions.length := by
    rw [List.length_zip, Nat.min_eq_left listed.size_le]
  rw [Session.encoded, listed.numbered, List.filterMap_congr each, ← size,
    filterMap_range_getElem?]

/-- The instructions of the set are encoded in their order. -/
theorem Listed.map_fst_encoded {set : InstructionSet} {session : Session}
    (listed : Listed set session) : session.encoded.map (·.1) = set.instructions := by
  rw [listed.encoded_eq]
  exact List.map_fst_zip listed.size_le

/-- What is known about an encoded instruction: its parameters are those that its encoding
reads, those of its own body first, its domains are those that its own body imposes, and
all of them are parameters that have a field. -/
theorem Encoded.entry {set : InstructionSet} {session : Session}
    (encoded : Encoded set session) {entry : Instruction × Emitter}
    (member : entry ∈ session.encoded) :
    entry.2.parameters.Nodup ∧
      (∀ name, name ∈ entry.2.parameters ↔ name ∈ Node.readsAll entry.1.encoding) ∧
      missingNames [] (Node.bodyReadsAll entry.1.encoding) <+: entry.2.parameters ∧
      entry.2.domains = imposedBy (Node.groupsAll entry.1.encoding) ∧
      (∀ effect ∈ effectsAll entry.1.encoding, effect.Admitted (some entry.1.name)) ∧
      ∀ name ∈ entry.2.parameters, Parameters.isKnown name = true := by
  rw [encoded.encoded_eq] at member
  obtain ⟨position, found⟩ := List.mem_iff_getElem?.mp member
  obtain ⟨listed, known⟩ := List.getElem?_zip_eq_some.mp found
  have place := encoded.placed position entry.1 listed
  obtain ⟨domains, first⟩ := encoded.own position entry.1 listed
  have names : session.emission.namesOf position = entry.2.parameters := by
    simp [namesOf, known]
  have scope : session.emission.scopeOf position = entry.1.encoding := by
    simp [scopeOf, place, Emission.scope, ownPlace]
  have owner : session.emission.ownerOf position = some entry.1.name := by
    simp [ownerOf, place, ownPlace]
  have complete := encoded.complete
  refine ⟨names ▸ complete.consistent.recorded.unique position, ?_, names ▸ first, ?_, ?_, ?_⟩
  · intro name
    rw [← names, ← scope]
    exact complete.mem_namesOf position name
  · rw [← domains]
    simp [domainsOf, known]
  · intro effect inside
    rw [← scope] at inside
    exact owner ▸ (complete.consistent.settled position (by simp) effect inside).1
  · intro name listed
    rw [← names] at listed
    exact (complete.read_known (complete.consistent.recorded.sound position listed)).2

/-- The phases that describe what has been emitted. -/
def descriptionPhases : List Phase :=
  [.instructions, .operands, .mnemonics, .parameters, .parameterStructures, .accessorStubs,
   .domains, .enumerations, .accessors]

/-- A complete run encodes its instruction set, and its tables describe what has been
encoded. -/
theorem generate_encodes {set : InstructionSet} {settings : Settings} {final : Session}
    (ran : generate (.start set settings) = .ok () final) :
    Encoded set final ∧ ∀ phase ∈ descriptionPhases, Described phase final := by
  have phases : Phase.all.map Phase.name =
      emissionPhases.map Phase.name ++ descriptionPhases.map Phase.name := rfl
  rw [generate_eq, phases] at ran
  obtain ⟨middle, emitting, describing⟩ := (runAll_append_ok_iff ..).mp ran
  obtain ⟨⟨numbered, placed⟩, source, complete, own⟩ := runAll_encodes emitting
  obtain ⟨agrees, -, described⟩ := runAll_describes (by decide) describing
  exact ⟨⟨⟨agrees.instructionEmitters ▸ numbered, agrees.emission ▸ placed⟩,
    agrees.set ▸ source, agrees.emission ▸ complete, agrees.emission ▸ own⟩, described⟩

/-- Behind a complete run each instruction has a table of its mnemonic. -/
theorem generate_mnemonics {set : InstructionSet} {settings : Settings} {final : Session}
    (ran : generate (.start set settings) = .ok () final) :
    final.elements.lookup .mnemonics =
      some (set.instructions.map mnemonicTable) := by
  obtain ⟨encoded, described⟩ := generate_encodes ran
  obtain ⟨_, _, mnemonics, agrees, made, found⟩ :=
    described .mnemonics (by simp [descriptionPhases])
  rw [produce_mnemonics, agrees.encoded_eq] at made
  obtain ⟨rfl, -⟩ := EStateM.Result.ok.inj made
  rw [found, ← encoded.map_fst_encoded, List.map_map]
  rfl

/-- Behind a complete run the stubs of accessors are those of all fields. -/
theorem generate_accessorStubs {set : InstructionSet} {settings : Settings} {final : Session}
    (ran : generate (.start set settings) = .ok () final) :
    ∃ stubs, Parameters.Accessor.functions true = .ok stubs ∧
      final.elements.lookup .accessorStubs = some stubs := by
  obtain ⟨-, described⟩ := generate_encodes ran
  obtain ⟨_, _, stubs, -, made, found⟩ := described .accessorStubs (by simp [descriptionPhases])
  rw [produce_accessorStubs, Run.ofExcept_ok_iff] at made
  exact ⟨stubs, made.1, found⟩

/-- Behind a complete run each instruction's table has a row for each of its parameters, and
the emitted tables are those of the instructions that have parameters. -/
theorem generate_tables {set : InstructionSet} {settings : Settings} {final : Session}
    (ran : generate (.start set settings) = .ok () final) :
    (∀ entry ∈ final.encoded, (tableRows entry).map (·.1) = entry.2.parameters) ∧
      final.elements.lookup .parameters =
        some ((final.encoded.filter fun entry => !entry.2.parameters.isEmpty).map
          tableElement) := by
  obtain ⟨-, described⟩ := generate_encodes ran
  obtain ⟨start, finish, elements, agrees, made, found⟩ :=
    described .parameters (by simp [descriptionPhases])
  rw [produce_parameters, agrees.encoded_eq] at made
  obtain ⟨names, rfl, -⟩ := parameterTables_ok made
  exact ⟨names, found⟩

/-- The table of an instruction with parameters is emitted. -/
theorem generate_table {set : InstructionSet} {settings : Settings} {final : Session}
    (ran : generate (.start set settings) = .ok () final) {entry : Instruction × Emitter}
    (member : entry ∈ final.encoded) (parameters : entry.2.parameters ≠ []) :
    ∃ tables, final.elements.lookup .parameters = some tables ∧ tableElement entry ∈ tables := by
  refine ⟨_, (generate_tables ran).2, List.mem_map_of_mem (List.mem_filter.mpr ⟨member, ?_⟩)⟩
  simpa using parameters

end EncoderTables.Generator
