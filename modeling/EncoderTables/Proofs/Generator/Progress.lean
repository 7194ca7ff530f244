import EncoderTables.Proofs.Generator.Moments
import EncoderTables.Proofs.Generator.OperandFailures
import EncoderTables.Proofs.Generator.ParameterTables

/-!
# Progress of a session

However often phases are attempted, a session has either found out exactly what the set has
at some moment, or it is blocked: the next phase of the chain has failed for a body that
cannot be written or a parameter without a domain, and will fail for it whenever it is
attempted again. What a failed attempt leaves half done is seen by no phase that can still
run. So the elements of every phase that has run are those that the set decides about.
-/

namespace EncoderTables.Generator

open Steps

/-- Instructions whose functions have been emitted can be written. -/
theorem writable_of_emitInstructions {instructions : List Instruction} {before after : Session}
    {functions : List Code.Element}
    (made : emitInstructions instructions before = .ok functions after) :
    ∀ instruction ∈ instructions, Writable (some instruction.name) instruction.encoding := by
  induction instructions generalizing before functions with
  | nil => simp
  | cons instruction rest inductionHypothesis =>
    obtain ⟨_, _, _, own, remaining, -⟩ := emitInstructions_cons_ok_iff.mp made
    simp only [instructionFunction, bind_ok_iff] at own
    obtain ⟨_, _, written, -⟩ := own
    exact List.forall_mem_cons.mpr ⟨writable_of_actions written, inductionHypothesis remaining⟩

/-- The functions of instructions are refused because one of them cannot be written. -/
theorem not_writable_of_emitInstructions {instructions : List Instruction}
    {before after : Session} {failure : Failure}
    (refused : emitInstructions instructions before = .error failure after) :
    ∃ instruction ∈ instructions, ¬ Writable (some instruction.name) instruction.encoding := by
  induction instructions generalizing before with
  | nil => simp [emitInstructions] at refused
  | cons instruction rest inductionHypothesis =>
    simp only [emitInstructions, bind_error_iff, pure_not_error, modify_not_error,
      Run.emit_error_iff, and_false, exists_false, or_false, false_or] at refused
    rcases refused with ⟨_, impossible, -⟩ | ⟨_, _, -, ⟨_, unwritten, -⟩ | ⟨_, _, -, _, _, -, later⟩⟩
    · cases impossible
    · refine ⟨instruction, List.mem_cons_self, ?_⟩
      simp only [instructionFunction, bind_error_iff] at unwritten
      rcases unwritten with refused | ⟨_, _, -, impossible⟩
      · exact not_writable_of_actions refused
      · cases impossible
    · obtain ⟨other, member, unwritable⟩ := inductionHypothesis later
      exact ⟨other, List.mem_cons_of_mem _ member, unwritable⟩

/-- Rows are refused because one of them has no domain. -/
theorem no_rowDomain_of_parameterRows {instruction : Instruction}
    {imposed : List (String × Domain)} {parameters : List String} {before after : Session}
    {failure : Failure}
    (refused : parameterRows instruction imposed parameters before = .error failure after) :
    ∃ parameter ∈ parameters, ∀ domain, rowDomain instruction imposed parameter ≠ .ok domain := by
  induction parameters generalizing before with
  | nil => simp [parameterRows] at refused
  | cons parameter rest inductionHypothesis =>
    simp only [parameterRows, bind_error_iff, pure_not_error, modify_not_error,
      Run.ofExcept_error_iff, and_false, exists_false, or_false, false_or] at refused
    rcases refused with ⟨absent, -⟩ | ⟨_, _, -, _, _, -, later⟩
    · exact ⟨parameter, List.mem_cons_self, fun domain found => by simp [found] at absent⟩
    · obtain ⟨other, member, without⟩ := inductionHypothesis later
      exact ⟨other, List.mem_cons_of_mem _ member, without⟩

namespace Session

/-- A phase of the chain that cannot succeed any more with what has been found out. -/
def Blocked (session : Session) : Phase → Prop
  | .instructionFunctions => ∃ instruction ∈ session.set.instructions,
    ¬ Writable (some instruction.name) instruction.encoding
  | .orderingFunctions => ∃ entry ∈ session.emission.orderings.entries, ¬ Writable none entry.1
  | .routineFunctions => ∃ routine key, session.emission.routines.key? routine = some key ∧
    ¬ Translates key
  | .parameters => ∃ entry ∈ session.encoded, ∃ parameter ∈ entry.2.parameters,
    ∀ domain, rowDomain entry.1 entry.2.domains parameter ≠ .ok domain
  | _ => False

end Session

/-- The parameter tables are refused because a parameter has no domain. -/
theorem blocked_of_parameterTables {entries : List (Instruction × Emitter)}
    {before after : Session} {failure : Failure}
    (refused : parameterTables entries before = .error failure after) :
    ∃ entry ∈ entries, ∃ parameter ∈ entry.2.parameters,
      ∀ domain, rowDomain entry.1 entry.2.domains parameter ≠ .ok domain := by
  induction entries generalizing before with
  | nil => simp [parameterTables] at refused
  | cons entry rest inductionHypothesis =>
    have others {before : Session} (later : parameterTables rest before = .error failure after) :
        ∃ other ∈ entry :: rest, ∃ parameter ∈ other.2.parameters,
          ∀ domain, rowDomain other.1 other.2.domains parameter ≠ .ok domain := by
      obtain ⟨other, member, found⟩ := inductionHypothesis later
      exact ⟨other, List.mem_cons_of_mem _ member, found⟩
    unfold parameterTables at refused
    split at refused
    · exact others refused
    · simp only [bind_error_iff, pure_not_error, and_false, exists_false, or_false] at refused
      rcases refused with own | ⟨_, _, -, later⟩
      · exact ⟨entry, List.mem_cons_self, no_rowDomain_of_parameterRows own⟩
      · exact others later

/-- A phase of the chain that is refused is blocked from then on. -/
theorem blocked_of_error {phase : Phase} (chained : phase ∈ Phase.chain) {before after : Session}
    {failure : Failure} (refused : produce phase before = .error failure after) :
    after.Blocked phase := by
  simp only [Phase.chain, List.mem_cons, List.not_mem_nil, or_false] at chained
  have kept := (produce_stays phase).error refused
  rcases chained with rfl | rfl | rfl | rfl
  · rw [produce_instructionFunctions] at refused
    show ∃ instruction ∈ after.set.instructions, _
    rw [kept.set]
    exact not_writable_of_emitInstructions refused
  · have resumed := (produce_resumes (by decide)).error refused
    rw [produce_orderingFunctions, Run.emit_error_iff] at refused
    obtain ⟨emission, refused, -⟩ := refused
    show ∃ entry ∈ after.emission.orderings.entries, _
    rw [(resumed.emission.shared rfl).1]
    exact not_writable_of_emitOrderings refused
  · rw [produce_routineFunctions, Run.emit_error_iff] at refused
    obtain ⟨emission, refused, rfl⟩ := refused
    rw [emitRoutines_eq] at refused
    exact not_translates_of_emitRoutines refused
  · have agrees : before.Agrees after :=
      (produce_keeps_describing rfl (fun _ _ => ⟨rfl, rfl, rfl⟩)
        fun _ _ _ => ⟨rfl, rfl, rfl⟩).error refused
    rw [produce_parameters] at refused
    show ∃ entry ∈ after.encoded, _
    rw [← agrees.encoded_eq]
    exact blocked_of_parameterTables refused

/-- A blocked phase does not succeed. -/
theorem not_ok_of_blocked {phase : Phase} {before after : Session}
    {elements : List Code.Element} (blocked : before.Blocked phase) :
    produce phase before ≠ .ok elements after := by
  intro made
  cases phase with
  | instructionFunctions =>
    rw [produce_instructionFunctions] at made
    obtain ⟨instruction, member, unwritable⟩ := blocked
    exact unwritable (writable_of_emitInstructions made instruction member)
  | orderingFunctions =>
    rw [produce_orderingFunctions, Run.emit_ok_iff] at made
    obtain ⟨_, made, -⟩ := made
    obtain ⟨entry, member, unwritable⟩ := blocked
    exact unwritable (writable_of_emitOrderings made entry member)
  | routineFunctions =>
    rw [produce_routineFunctions, Run.emit_ok_iff] at made
    obtain ⟨_, made, -⟩ := made
    rw [emitRoutines_eq] at made
    obtain ⟨routine, key, requested, untranslated⟩ := blocked
    have inside : routine < before.emission.routines.entries.length := by
      obtain ⟨entry, found, -⟩ := Option.map_eq_some_iff.mp requested
      exact (List.getElem?_eq_some_iff.mp found).1
    have enough := Nat.lt_of_le_of_lt (length_le_callWeight _)
      (callWeight_lt_fuel before.emission.routines.entries)
    rw [List.length_map] at enough
    exact untranslated (translates_of_emitRoutines made (Nat.zero_le routine) (by omega) requested)
  | parameters =>
    rw [produce_parameters] at made
    obtain ⟨entry, member, parameter, listed, without⟩ := blocked
    have rows := (parameterTables_ok made).1 entry member
    rw [← rows, List.mem_map] at listed
    obtain ⟨row, inside, rfl⟩ := listed
    exact without row.2 ((mem_domainRows ..).mp inside).2
  | _ => exact blocked

/-- A moment that is followed by a phase. -/
theorem moment_append {set : InstructionSet} {phases : List Phase} {phase : Phase}
    {reached : Session} (found : moment set phases = some reached) :
    moment set (phases ++ [phase]) = reached.behind? phase := by
  unfold moment at found ⊢
  rw [List.foldlM_append, found]
  simp

/-- A phase whose elements are produced at its moment. -/
theorem canonical_of_ok {set : InstructionSet} {phase : Phase} {reached after : Session}
    {elements : List Code.Element} (found : moment set phase.basis = some reached)
    (made : produce phase reached = .ok elements after) :
    canonical set phase = some elements := by
  simp [canonical, found, Session.elements?, made]

/-- The phases of the chain that have run when another one of them can run next. -/
theorem chain_next : ∀ done ∈ Phase.chain.inits, ∀ phase ∈ Phase.chain, phase ∉ done →
    (∀ need ∈ phase.needs, need ∈ done) →
      phase.basis = done ∧ done ++ [phase] ∈ Phase.chain.inits := by
  decide

/-- A phase of the chain is known by those before it. -/
theorem chain_basis : ∀ phase ∈ Phase.chain, ∀ other ∈ Phase.chain,
    phase.basis = other.basis → phase = other := by
  decide

/-- What is known of a session behind any attempts: what it has found out, up to what a phase
that is blocked has left behind, and the elements of the phases that have run. -/
structure Progress (set : InstructionSet) (session : Session) : Prop where
  source : session.set = set
  stage : ∃ done ∈ Phase.chain.inits, ∃ reached,
    (∀ phase ∈ Phase.chain, session.hasRun phase = true ↔ phase ∈ done) ∧
    moment set done = some reached ∧
    (reached.Matches session ∨ ∃ next ∈ Phase.chain, next ∉ done ∧ next.basis = done ∧
      session.Blocked next ∧ (next = .parameters → reached.Agrees session))
  resumed : session.hasRun .instructionFunctions = true →
    ∃ reached, moment set [.instructionFunctions] = some reached ∧ reached.Resumes session
  made : ∀ entry ∈ session.elements, canonical set entry.1 = some entry.2

/-- A session before its first phase. -/
theorem Progress.start (set : InstructionSet) (settings : Settings) :
    Progress set (.start set settings) := by
  have fresh : (Session.start set settings).elements = [] := (start_frame set settings).2.2.2.2
  have none (phase : Phase) : (Session.start set settings).hasRun phase = false := by
    simp [Session.hasRun, fresh]
  refine ⟨(start_frame set settings).1, ⟨[], by simp, .bare set, by simp [none], rfl, .inl ?_⟩,
    by simp [none], by simp [fresh]⟩
  rw [Session.start, tell_frame]
  exact ⟨rfl, rfl, rfl, rfl⟩

/-- A blocked phase is blocked wherever the same has been found out. -/
theorem Session.Blocked.congr {session other : Session} {phase : Phase}
    (blocked : session.Blocked phase) (same : session.Matches other) : other.Blocked phase := by
  cases phase with
  | instructionFunctions =>
    show ∃ instruction ∈ other.set.instructions, _
    exact same.set ▸ blocked
  | orderingFunctions =>
    show ∃ entry ∈ other.emission.orderings.entries, _
    exact same.emission ▸ blocked
  | routineFunctions =>
    show ∃ routine key, other.emission.routines.key? routine = some key ∧ _
    exact same.emission ▸ blocked
  | parameters =>
    show ∃ entry ∈ other.encoded, _
    exact same.encoded_eq ▸ blocked
  | _ => exact blocked

/-- Progress is about what has been found out and the elements of phases. -/
theorem Progress.congr {set : InstructionSet} {session other : Session}
    (progress : Progress set session) (same : session.Matches other)
    (elements : other.elements = session.elements) : Progress set other := by
  obtain ⟨source, ⟨done, initial, reached, ran, found, stage⟩, resumed, made⟩ := progress
  have marks (phase : Phase) : other.hasRun phase = session.hasRun phase := by
    rw [Session.hasRun, elements, Session.hasRun]
  refine ⟨same.set ▸ source, ⟨done, initial, reached, ?_, found, ?_⟩, ?_, ?_⟩
  · simpa only [marks] using ran
  · rcases stage with equal | ⟨next, chained, new, basis, blocked, agrees⟩
    · exact .inl (IsTrans.trans _ _ _ equal same)
    · refine .inr ⟨next, chained, new, basis, blocked.congr same, fun last => ?_⟩
      obtain ⟨agreesSet, agreesEmission, agreesNumbers⟩ := agrees last
      exact ⟨agreesSet.trans same.set, agreesEmission.trans same.emission,
        agreesNumbers.trans same.instructionEmitters⟩
  · rw [marks]
    intro ran
    obtain ⟨first, earlier, numbers, emission⟩ := resumed ran
    exact ⟨first, earlier, same.instructionEmitters ▸ numbers, same.emission ▸ emission⟩
  · rw [elements]
    exact made

/-- A phase outside the chain finds out nothing. -/
theorem produce_matches {phase : Phase} (unchained : phase ∉ Phase.chain) :
    Keeps Session.Matches (produce phase) := by
  refine produce_keeps_describing ?_ (fun _ _ => ⟨rfl, rfl, rfl, rfl⟩) ?_
  · cases phase <;> first | rfl | exact absurd (by decide) unchained
  · rintro rfl
    exact absurd (by decide) unchained

/-- A phase of the chain that is allowed is the next one: either what is behind those before it
has been found out, or the phase is blocked. -/
theorem Progress.next {set : InstructionSet} {session : Session} {phase : Phase}
    (progress : Progress set session) (chained : phase ∈ Phase.chain)
    (allowed : checkPhase session phase = .ok ()) :
    phase.basis ++ [phase] ∈ Phase.chain.inits ∧
      (∀ other ∈ Phase.chain, session.hasRun other = true ↔ other ∈ phase.basis) ∧
      ∃ reached, moment set phase.basis = some reached ∧
        (reached.Matches session ∨
          session.Blocked phase ∧ (phase = .parameters → reached.Agrees session)) := by
  obtain ⟨done, initial, reached, ran, found, stage⟩ := progress.stage
  obtain ⟨new, ready⟩ := (checkPhase_ok_iff ..).mp allowed
  have needs : ∀ need ∈ phase.needs, need ∈ Phase.chain := by
    revert chained
    cases phase <;> decide
  obtain ⟨basis, initialNext⟩ := chain_next done initial phase chained
    (fun member => by simp [(ran phase chained).mpr member] at new)
    fun need member => (ran need (needs need member)).mp (ready need member)
  subst basis
  refine ⟨initialNext, ran, reached, found, ?_⟩
  rcases stage with equal | ⟨next, nextChained, -, basis, blocked, agrees⟩
  · exact .inl equal
  · obtain rfl := chain_basis next nextChained phase chained basis
    exact .inr ⟨blocked, agrees⟩

/-- An attempt that fails leaves a session whose progress is what it was, or that is blocked. -/
theorem Progress.refused {set : InstructionSet} {session after : Session} {phase : Phase}
    {failure : Failure} (progress : Progress set session)
    (allowed : checkPhase session phase = .ok ())
    (refused : produce phase session = .error failure after) : Progress set after := by
  have stays := (produce_stays phase).error refused
  by_cases chained : phase ∈ Phase.chain
  · have marks (other : Phase) : after.hasRun other = session.hasRun other := by
      rw [Session.hasRun, stays.elements, Session.hasRun]
    obtain ⟨-, ran, reached, found, stage⟩ := progress.next chained allowed
    have new := ((checkPhase_ok_iff ..).mp allowed).1
    have outside : phase ∉ phase.basis := fun member => by
      simp [(ran phase chained).mpr member] at new
    have initial : phase.basis ∈ Phase.chain.inits := by
      revert chained
      cases phase <;> decide
    refine ⟨stays.set.trans progress.source, ⟨phase.basis, initial, reached, ?_, found,
      .inr ⟨phase, chained, outside, rfl, blocked_of_error chained refused, ?_⟩⟩, ?_, ?_⟩
    · simpa only [marks] using ran
    · rintro rfl
      have kept : session.Agrees after := (produce_keeps_describing rfl
        (fun _ _ => ⟨rfl, rfl, rfl⟩) fun _ _ _ => ⟨rfl, rfl, rfl⟩).error refused
      have start : reached.Agrees session := by
        rcases stage with equal | ⟨-, agrees⟩
        · exact ⟨equal.set, equal.emission, equal.instructionEmitters⟩
        · exact agrees rfl
      exact IsTrans.trans _ _ _ start kept
    · rw [marks]
      intro encoded
      obtain ⟨first, earlier, resumes⟩ := progress.resumed encoded
      have later : phase ≠ .instructionFunctions := by
        rintro rfl
        simp [new] at encoded
      exact ⟨first, earlier,
        IsTrans.trans _ _ _ resumes ((produce_resumes later).error refused)⟩
    · rw [stays.elements]
      exact progress.made
  · exact progress.congr ((produce_matches chained).error refused) stays.elements

/-- The layout of a parameter structure does not depend on its budget. -/
theorem layout_unique {names : List String} {basic : Bool} {unions : List (List String)}
    {budget other : Scalar} {layout found : Parameters.Layout}
    (made : Parameters.Layout.make names basic unions budget = .ok layout)
    (remade : Parameters.Layout.make names basic unions other = .ok found) : layout = found := by
  have laidOut {words : Scalar} {result : Parameters.Layout}
      (made : Parameters.Layout.make names basic unions words = .ok result) :
      ∃ fields, Parameters.Slot.ofParameters basic names = .ok fields ∧
        result = ⟨basic, Parameters.Layout.group unions (Parameters.Layout.ordered fields)⟩ := by
    simp only [Parameters.Layout.make, Results.bind_ok_iff] at made
    obtain ⟨fields, known, fitting⟩ := made
    refine ⟨fields, known, ?_⟩
    split at fitting
    · simp at fitting
    · split at fitting
      · exact ((Results.pure_ok_iff ..).mp fitting).symm
      · simp at fitting
  obtain ⟨fields, known, rfl⟩ := laidOut made
  obtain ⟨others, same, rfl⟩ := laidOut remade
  obtain rfl := Except.ok.inj (known.symm.trans same)
  rfl

/-- The declarations of a parameter structure are the same in all sessions. -/
theorem parameterStructure_unique {basic : Bool} {session other after latter : Session}
    {declaration found : Code.Element}
    (made : parameterStructure basic session = .ok declaration after)
    (remade : parameterStructure basic other = .ok found latter) : declaration = found := by
  obtain ⟨layout, laidOut, rfl, -⟩ := parameterStructure_ok_iff.mp made
  obtain ⟨again, relaid, rfl, -⟩ := parameterStructure_ok_iff.mp remade
  rw [layout_unique laidOut relaid]

/-- The declarations of parameter structures are the same in each session. -/
theorem parameterStructures_canonical {set : InstructionSet} {session after : Session}
    {elements : List Code.Element}
    (made : produce .parameterStructures session = .ok elements after) :
    canonical set .parameterStructures = some elements := by
  obtain ⟨found, latter, -, remade, -⟩ := @produce_succeeds .parameterStructures
    (by simp [closingPhases]) (.bare set) rfl
  have canonical := @canonical_of_ok set .parameterStructures _ _ _ rfl remade
  rw [canonical]
  obtain ⟨full, basic, _, first, second, rfl⟩ := produce_parameterStructures_ok_iff.mp made
  obtain ⟨fullAgain, basicAgain, _, firstAgain, secondAgain, rfl⟩ :=
    produce_parameterStructures_ok_iff.mp remade
  rw [parameterStructure_unique first firstAgain, parameterStructure_unique second secondAgain]

/-- The instructions of a set have their emitters at the moment behind the first phase. -/
theorem moment_listed {set : InstructionSet} {reached : Session}
    (found : moment set [.instructionFunctions] = some reached) : Listed set reached := by
  have behind : (Session.bare set).behind? .instructionFunctions = some reached := by
    simpa [moment] using found
  obtain ⟨functions, made⟩ := (Session.behind?_eq_some_iff ..).mp behind
  rw [produce_instructionFunctions] at made
  obtain ⟨emitted, -, -, frame⟩ := emitInstructions_emitted Emission.empty_consistent
    (by simp [Emission.Unshared, Emission.places, Session.bare, Emission.empty]) rfl made
  refine .of_emitted emitted ?_
  rw [frame]
  simp [Session.bare, Emission.empty, List.range_eq_range']

/-- Shared functions leave the emitters of instructions at their positions. -/
theorem Listed.resumes {set : InstructionSet} {before after : Session}
    (listed : Listed set before) (resumes : before.Resumes after) : Listed set after := by
  refine ⟨resumes.instructionEmitters.trans listed.numbered, fun position instruction found => ?_⟩
  obtain ⟨more, places⟩ := resumes.emission.places
  have place := listed.placed position instruction found
  rw [← places, List.getElem?_append_left (List.getElem?_eq_some_iff.mp place).1]
  exact place

/-- The parameter tables leave what has been emitted. -/
theorem behind_parameters {session after : Session}
    (found : session.behind? .parameters = some after) : session.Agrees after := by
  obtain ⟨tables, made⟩ := (Session.behind?_eq_some_iff ..).mp found
  rw [produce_frame rfl made]
  exact ⟨rfl, rfl, rfl⟩

/-- Once the functions of routines have been emitted, nothing else is. -/
theorem Progress.emitted {set : InstructionSet} {session : Session}
    (progress : Progress set session) (ran : session.hasRun .routineFunctions = true) :
    ∃ reached, moment set [.instructionFunctions, .orderingFunctions, .routineFunctions] =
      some reached ∧ reached.Agrees session := by
  obtain ⟨done, initial, reached, marks, found, stage⟩ := progress.stage
  have member := (marks .routineFunctions (by decide)).mp ran
  have cases : ∀ done ∈ Phase.chain.inits, .routineFunctions ∈ done →
      done = [.instructionFunctions, .orderingFunctions, .routineFunctions] ∨
        done = [.instructionFunctions, .orderingFunctions, .routineFunctions] ++
          [.parameters] := by
    decide
  rcases cases done initial member with rfl | rfl
  · refine ⟨reached, found, ?_⟩
    rcases stage with equal | ⟨next, chained, -, basis, -, agrees⟩
    · exact ⟨equal.set, equal.emission, equal.instructionEmitters⟩
    · exact agrees (chain_basis next chained .parameters (by decide) basis)
  · cases earlier : moment set [.instructionFunctions, .orderingFunctions, .routineFunctions] with
    | none =>
      unfold moment at found earlier
      rw [List.foldlM_append, earlier] at found
      cases found
    | some former =>
      rw [moment_append earlier] at found
      refine ⟨former, rfl, IsTrans.trans _ _ _ (behind_parameters found) ?_⟩
      rcases stage with equal | ⟨next, chained, new, basis, -⟩
      · exact ⟨equal.set, equal.emission, equal.instructionEmitters⟩
      · exact absurd chained new

/-- A phase that succeeds leaves the elements that the set decides about. -/
theorem Progress.canonical {set : InstructionSet} {session after : Session} {phase : Phase}
    {elements : List Code.Element} (progress : Progress set session)
    (allowed : checkPhase session phase = .ok ())
    (made : produce phase session = .ok elements after) : canonical set phase = some elements := by
  have ready := ((checkPhase_ok_iff ..).mp allowed).2
  have chained (own : phase ∈ Phase.chain) : Generator.canonical set phase = some elements := by
    obtain ⟨-, -, reached, found, equal | ⟨blocked, -⟩⟩ := progress.next own allowed
    · have unset : phase ≠ .parameterStructures := by
        rintro rfl
        exact absurd own (by decide)
      obtain ⟨_, latter, remade, rfl, -⟩ := (produce_simulates unset).ok equal.symm made
      exact canonical_of_ok found remade
    · exact absurd made (not_ok_of_blocked blocked)
  cases phase with
  | instructionFunctions | orderingFunctions | routineFunctions | parameters =>
    exact chained (by decide)
  | permutationTables =>
    obtain ⟨reached, found, resumes⟩ := progress.resumed (ready .instructionFunctions (by decide))
    rw [produce_permutationTables] at made
    obtain ⟨rfl, -⟩ := EStateM.Result.ok.inj made
    rw [(resumes.emission.shared rfl).2]
    exact @canonical_of_ok set .permutationTables reached reached _ found rfl
  | mnemonics =>
    obtain ⟨reached, found, resumes⟩ := progress.resumed (ready .instructionFunctions (by decide))
    rw [produce_mnemonics] at made
    obtain ⟨rfl, -⟩ := EStateM.Result.ok.inj made
    have listed := moment_listed found
    have tables (entries : List (Instruction × Emitter)) :
        (entries.map fun entry => mnemonicTable entry.1) =
          (entries.map (·.1)).map mnemonicTable := by
      rw [List.map_map]
      rfl
    rw [tables, (listed.resumes resumes).map_fst_encoded, ← listed.map_fst_encoded, ← tables]
    exact @canonical_of_ok set .mnemonics reached reached _ found rfl
  | instructions =>
    obtain ⟨reached, found, agrees⟩ := progress.emitted (ready .routineFunctions (by decide))
    rw [produce_instructions] at made
    obtain ⟨rfl, -⟩ := EStateM.Result.ok.inj made
    rw [← agrees.encoded_eq]
    exact @canonical_of_ok set .instructions reached reached _ found rfl
  | operands =>
    obtain ⟨reached, found, agrees⟩ := progress.emitted (ready .routineFunctions (by decide))
    rw [produce_operands, Run.ofExcept_ok_iff, ← agrees.encoded_eq] at made
    refine @canonical_of_ok set .operands reached reached _ found ?_
    rw [produce_operands, Run.ofExcept_ok_iff]
    exact ⟨made.1, rfl⟩
  | domains =>
    obtain ⟨done, initial, reached, marks, found, stage⟩ := progress.stage
    have member := (marks .parameters (by decide)).mp (ready .parameters (by decide))
    have all : ∀ done ∈ Phase.chain.inits, .parameters ∈ done → done = Phase.chain := by decide
    obtain rfl := all done initial member
    have equal : reached.Matches session := by
      apply stage.resolve_right
      rintro ⟨next, chained, new, -⟩
      exact new chained
    obtain ⟨_, latter, remade, rfl, -⟩ :=
      (@produce_simulates .domains (by decide)).ok equal.symm made
    exact canonical_of_ok found remade
  | parameterStructures => exact parameterStructures_canonical made
  | accessorStubs =>
    rw [produce_accessorStubs, Run.ofExcept_ok_iff] at made
    refine @canonical_of_ok set .accessorStubs (.bare set) (.bare set) _ rfl ?_
    rw [produce_accessorStubs, Run.ofExcept_ok_iff]
    exact ⟨made.1, rfl⟩
  | accessors =>
    rw [produce_accessors, Run.ofExcept_ok_iff] at made
    refine @canonical_of_ok set .accessors (.bare set) (.bare set) _ rfl ?_
    rw [produce_accessors, Run.ofExcept_ok_iff]
    exact ⟨made.1, rfl⟩
  | enumerations =>
    rw [produce_enumerations, Run.ofExcept_ok_iff, progress.source] at made
    refine @canonical_of_ok set .enumerations (.bare set) (.bare set) _ rfl ?_
    rw [produce_enumerations, Run.ofExcept_ok_iff]
    exact ⟨made.1, rfl⟩

/-- A session that a phase has left its elements behind in. -/
def Session.withElements (session : Session) (phase : Phase) (elements : List Code.Element) :
    Session :=
  { session with elements := session.elements ++ [(phase, elements)] }

/-- A phase has run when it has left its elements behind. -/
theorem hasRun_withElements (session : Session) (phase other : Phase)
    (elements : List Code.Element) :
    (session.withElements phase elements).hasRun other = true ↔
      session.hasRun other = true ∨ other = phase := by
  rw [hasRun_iff, hasRun_iff]
  simp [Session.withElements]

/-- What has been found out does not depend on elements. -/
theorem matches_withElements (session : Session) (phase : Phase)
    (elements : List Code.Element) : session.Matches (session.withElements phase elements) :=
  ⟨rfl, rfl, rfl, rfl⟩

/-- A phase of the chain that succeeds goes the same way at its moment. -/
theorem Progress.followed {set : InstructionSet} {session after : Session} {phase : Phase}
    {elements : List Code.Element} (progress : Progress set session)
    (chained : phase ∈ Phase.chain) (allowed : checkPhase session phase = .ok ())
    (made : produce phase session = .ok elements after) :
    ∃ latter, moment set (phase.basis ++ [phase]) = some latter ∧ latter.Matches after := by
  obtain ⟨-, -, reached, found, equal | ⟨blocked, -⟩⟩ := progress.next chained allowed
  · have unset : phase ≠ .parameterStructures := by
      rintro rfl
      exact absurd chained (by decide)
    obtain ⟨_, latter, remade, rfl, same⟩ := (produce_simulates unset).ok equal.symm made
    refine ⟨latter, ?_, same.symm⟩
    rw [moment_append found]
    simp [Session.behind?, remade]
  · exact absurd made (not_ok_of_blocked blocked)

/-- A phase that succeeds makes progress. -/
theorem Progress.produced {set : InstructionSet} {session after : Session} {phase : Phase}
    {elements : List Code.Element} (progress : Progress set session)
    (allowed : checkPhase session phase = .ok ())
    (made : produce phase session = .ok elements after) :
    Progress set (after.withElements phase elements) := by
  have decided := progress.canonical allowed made
  have stays := (produce_stays phase).ok made
  have same := matches_withElements after phase elements
  have marks (other : Phase) : (after.withElements phase elements).hasRun other = true ↔
      session.hasRun other = true ∨ other = phase := by
    rw [hasRun_withElements, Session.hasRun, stays.elements, Session.hasRun]
  constructor
  case source => exact stays.set.trans progress.source
  case stage =>
    by_cases chained : phase ∈ Phase.chain
    · obtain ⟨initial, ran, -⟩ := progress.next chained allowed
      obtain ⟨latter, found, equal⟩ := progress.followed chained allowed made
      refine ⟨phase.basis ++ [phase], initial, latter, fun other inside => ?_, found,
        .inl (IsTrans.trans _ _ _ equal same)⟩
      rw [marks, ran other inside, List.mem_append, List.mem_singleton]
    · have kept := (produce_matches chained).ok made
      obtain ⟨done, initial, reached, ran, found, stage⟩ := progress.stage
      refine ⟨done, initial, reached, fun other inside => ?_, found, ?_⟩
      · have different : other ≠ phase := by
          rintro rfl
          exact chained inside
        rw [marks, ran other inside]
        simp [different]
      · have unchanged : session.Matches (after.withElements phase elements) :=
          IsTrans.trans _ _ _ kept same
        rcases stage with equal | ⟨next, member, new, basis, blocked, agrees⟩
        · exact .inl (IsTrans.trans _ _ _ equal unchanged)
        · refine .inr ⟨next, member, new, basis, blocked.congr unchanged, fun last => ?_⟩
          exact IsTrans.trans _ _ _ (agrees last)
            ⟨unchanged.set, unchanged.emission, unchanged.instructionEmitters⟩
  case resumed =>
    rw [marks]
    intro encoded
    by_cases first : phase = .instructionFunctions
    · subst first
      obtain ⟨latter, found, equal⟩ := progress.followed (by decide) allowed made
      exact ⟨latter, found, equal.instructionEmitters.symm, equal.emission ▸ .refl none _⟩
    · have earlier := encoded.resolve_right fun same => first same.symm
      obtain ⟨reached, found, resumes⟩ := progress.resumed earlier
      have kept := (produce_resumes first).ok made
      exact ⟨reached, found, kept.instructionEmitters.trans resumes.instructionEmitters,
        resumes.emission.trans kept.emission⟩
  case made =>
    intro entry member
    have listed : entry ∈ session.elements ++ [(phase, elements)] := stays.elements ▸ member
    rcases List.mem_append.mp listed with old | new
    · exact progress.made entry old
    · rw [List.mem_singleton.mp new]
      exact decided

end EncoderTables.Generator
