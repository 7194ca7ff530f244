import EncoderTables.Proofs.Generator.Blocks
import EncoderTables.Proofs.Generator.LaterPhases
import EncoderTables.Proofs.Generator.Moments
import EncoderTables.Proofs.Generator.Renaming

/-!
# Names of routines

Two sets that differ in the names of routines alone are generated side by side. Both
generations succeed or are refused for the same failure; all blocks are the same but that of
the functions of routines, of which only the comments differ; and all scalars are the same,
the signature among them. So it does not matter which one of several routines that share a
function has been requested first.
-/

namespace EncoderTables

/-- A set in whose encodings no routine has a name. -/
def InstructionSet.unnamed (set : InstructionSet) : InstructionSet :=
  ⟨set.instructions.map Instruction.unnamed⟩

/-- The signature of a set does not depend on the names of routines. -/
@[simp]
theorem InstructionSet.signature_unnamed (set : InstructionSet) :
    set.unnamed.signature = set.signature := by
  have entry (instruction : Instruction) :
      signedEntry instruction.unnamed = signedEntry instruction := by
    simp [signedEntry, Instruction.unnamed, Node.shownEncoding]
  simp [signature, signedText, unnamed, Function.comp_def, entry]

/-- The names of instructions do not depend on the names of routines. -/
@[simp]
theorem InstructionSet.map_name_unnamed (set : InstructionSet) :
    set.unnamed.instructions.map (·.name) = set.instructions.map (·.name) := by
  simp [unnamed, Function.comp_def, Instruction.unnamed]

/-- The bit ranges that operands write do not depend on the names of routines. -/
@[simp]
theorem InstructionSet.writtenRanges_unnamed (set : InstructionSet) :
    set.unnamed.writtenRanges = set.writtenRanges := by
  simp [writtenRanges, unnamed, List.flatMap_map, Instruction.unnamed]

namespace Generator

open Steps

/-- The enumerations are the same without names. -/
theorem enumerations_unnamed (set : InstructionSet) :
    enumerations set.unnamed = enumerations set := by
  simp only [enumerations, bitMaskNames, InstructionSet.map_name_unnamed,
    InstructionSet.writtenRanges_unnamed]

/-- What has been found is changed to something else in the same cases. -/
theorem outcome_map {α β : Type} (found : Except Failure α) (change : α → β) :
    outcome (found.map change) = outcome found := by
  cases found <;> rfl

/-- A function is printed as its comment in front of what it is printed as without one. -/
theorem functionChunks_comment (comment : Code.Comment) (name prototype : String)
    (body : Except Failure (List Code.Chunk)) (withBody : Bool) :
    Code.Element.functionChunks comment name prototype body withBody =
      (Code.Element.functionChunks .none name prototype body withBody).map
        (comment.chunks ++ ·) := by
  cases withBody with
  | false => rfl
  | true =>
    cases body with
    | error failure => rfl
    | ok inner => exact congrArg Except.ok (by simp [Code.Comment.chunks, Code.Comment.none])

/-- Functions that differ in their comments at most are printed as these comments, each in
front of the same code. -/
theorem SameFunction.chunks {function other : Code.Element} (same : SameFunction function other)
    (declaring : Bool) :
    ∃ (comment remark : Code.Comment) (code : Except Failure (List Code.Chunk)),
      function.chunks declaring = code.map (comment.chunks ++ ·) ∧
      other.chunks declaring = code.map (remark.chunks ++ ·) := by
  cases same with
  | commented comment remark name parameters body =>
    have printed (comment : Code.Comment) :
        Code.Element.chunks declaring
          (.function comment name .bool parameters body true false) =
            (Code.Element.texts parameters >>= fun texts => Code.Element.functionChunks .none name
              (Code.Element.prototype name .bool true false texts) (body.chunks false)
              !declaring).map (comment.chunks ++ ·) := by
      simp only [Code.Element.chunks]
      cases Code.Element.texts parameters with
      | error failure => rfl
      | ok texts => exact functionChunks_comment ..
    exact ⟨comment, remark, _, printed comment, printed remark⟩

/-- Functions that differ in their comments at most are laid out in the same cases. -/
theorem outcome_render {functions others : List Code.Element}
    (same : List.Forall₂ SameFunction functions others) (indent width : Int)
    (implementing : Bool) :
    outcome (Code.render functions indent width implementing) =
      outcome (Code.render others indent width implementing) := by
  have chunks : outcome (Code.chunksOf implementing functions) =
      outcome (Code.chunksOf implementing others) := by
    induction same with
    | nil => rfl
    | @cons function other rest further alike _ inductionHypothesis =>
      refine outcome_bind ?_ fun _ _ =>
        outcome_bind inductionHypothesis fun _ _ => outcome_pure ..
      obtain ⟨comment, remark, code, first, second⟩ := alike.chunks !implementing
      rw [first, second, outcome_map, outcome_map]
  unfold Code.render
  cases Code.Page.make indent width with
  | error failure => rfl
  | ok page =>
    show outcome (Code.chunksOf implementing functions >>= _) =
      outcome (Code.chunksOf implementing others >>= _)
    exact outcome_bind chunks fun _ _ => outcome_pure ..

/-- The elements of a phase are the same, or functions of routines that differ in their
comments at most. -/
def SameElements (phase : Phase) (elements others : List Code.Element) : Prop :=
  if phase = .routineFunctions then List.Forall₂ SameFunction elements others
  else elements = others

/-- Two sessions of which the second is over the set of the first without the names of
routines, and has left the same behind, up to comments of routines. -/
structure Session.Unnamed (session other : Session) : Prop where
  set : other.set = session.set.unnamed
  settings : other.settings = session.settings
  emission : other.emission = session.emission.unnamed
  instructionEmitters : other.instructionEmitters = session.instructionEmitters
  registry : other.registry = session.registry
  elements : List.Forall₂ (fun entry found => entry.1 = found.1 ∧
    SameElements entry.1 entry.2 found.2) session.elements other.elements
  blocks : List.Forall₂ (fun entry found => entry.1 = found.1 ∧
    (entry.1 ≠ .routineFunctions → entry.2 = found.2)) session.blocks other.blocks

/-- What related entries have under a key is related. -/
theorem lookup_related {α : Type} {related : Phase → α → α → Prop}
    {entries others : List (Phase × α)}
    (each : List.Forall₂
      (fun entry found => entry.1 = found.1 ∧ related entry.1 entry.2 found.2) entries others)
    (phase : Phase) :
    Option.Rel (related phase) (entries.lookup phase) (others.lookup phase) := by
  induction each with
  | nil => exact .none
  | @cons entry found rest further both _ inductionHypothesis =>
    obtain ⟨first, value⟩ := entry
    obtain ⟨second, other⟩ := found
    obtain ⟨rfl, same⟩ := both
    rw [lookup_cons_ite, lookup_cons_ite]
    by_cases here : phase = first
    · rw [if_pos here, if_pos here, here]
      exact .some same
    · rw [if_neg here, if_neg here]
      exact inductionHypothesis

namespace Session.Unnamed

variable {session other : Session}

/-- The same phases have run. -/
theorem hasRun_eq (start : session.Unnamed other) (phase : Phase) :
    other.hasRun phase = session.hasRun phase := by
  have found := lookup_related start.elements phase
  unfold Session.hasRun
  revert found
  generalize session.elements.lookup phase = own
  generalize other.elements.lookup phase = latter
  rintro (_ | _) <;> rfl

/-- The same phases are allowed. -/
theorem checkPhase_eq (start : session.Unnamed other) (phase : Phase) :
    checkPhase other phase = checkPhase session phase := by
  simp only [checkPhase, start.hasRun_eq]

/-- The same instructions have been encoded. -/
theorem encoded_eq (start : session.Unnamed other) :
    other.encoded = session.encoded.map fun entry => (entry.1.unnamed, entry.2.unnamed) := by
  unfold Session.encoded
  rw [start.instructionEmitters, start.emission, List.map_filterMap]
  refine congrArg (List.filterMap · _) (funext fun id => ?_)
  simp only [Emission.unnamed, List.getElem?_map]
  cases session.emission.emitters[id]? with
  | none => rfl
  | some emitter =>
    cases known : emitter.instruction <;> simp [Emitter.unnamed, known]

/-- The same scalars have been found out. -/
theorem scalars_eq (start : session.Unnamed other) : other.scalars = session.scalars := by
  have parameters : other.maxParameters = session.maxParameters := by
    simp [Session.maxParameters, start.encoded_eq, Function.comp_def, Emitter.unnamed]
  have size : session.set.unnamed.instructions.length = session.set.instructions.length :=
    List.length_map _
  simp only [Session.scalars, parameters, start.registry, start.set, size,
    InstructionSet.signature_unnamed]

/-- The functions of routines differ in their comments at most. -/
theorem functions (start : session.Unnamed other) {functions : List Code.Element}
    (listed : session.elements.lookup .routineFunctions = some functions) :
    ∃ others, other.elements.lookup .routineFunctions = some others ∧
      List.Forall₂ SameFunction functions others := by
  have found := lookup_related start.elements .routineFunctions
  rw [listed] at found
  cases known : other.elements.lookup .routineFunctions with
  | none =>
    rw [known] at found
    cases found
  | some others =>
    rw [known] at found
    cases found with
    | some same => exact ⟨others, rfl, same⟩

/-- The block of any other phase is the same. -/
theorem block_eq (start : session.Unnamed other) {phase : Phase}
    (different : phase ≠ .routineFunctions) :
    other.blocks.lookup phase = session.blocks.lookup phase := by
  have found := @lookup_related _
    (fun phase block text => phase ≠ .routineFunctions → block = text) _ _ start.blocks phase
  revert found
  generalize session.blocks.lookup phase = own
  generalize other.blocks.lookup phase = latter
  rintro (same | _)
  · rw [same different]
  · rfl

end Session.Unnamed

/-- A step of an emission that goes the same way without names. -/
theorem emit_unnamed {α : Type} {same : α → α → Prop} {step other : Emit α}
    (simulates : Simulates Unnamed same step other) :
    Simulates Session.Unnamed same (Run.emit step) (Run.emit other) := by
  intro before former start
  have beside := simulates _ _ start.emission
  unfold Run.emit
  cases reached : step before.emission <;> cases finished : other former.emission <;>
    simp only [reached, finished] at beside ⊢
  · exact ⟨beside.1, { start with emission := beside.2 }⟩
  · exact ⟨beside.1, { start with emission := beside.2 }⟩

/-- A value that is found in the same cases. -/
theorem ofExcept_related {α : Type} {same : α → α → Prop} {found other : Except Failure α}
    (outcomes : outcome found = outcome other)
    (each : ∀ value result, found = .ok value → other = .ok result → same value result) :
    Simulates Session.Unnamed same (Run.ofExcept found) (Run.ofExcept other) := by
  cases found with
  | ok value =>
    cases other with
    | ok result => exact .pure (each value result rfl rfl)
    | error cause => cases outcomes
  | error failure =>
    cases other with
    | ok result => cases outcomes
    | error cause =>
      obtain rfl := Except.error.inj outcomes
      exact .refused failure

/-- What is done is told on both sides. -/
theorem tell_unnamed (line : String) :
    Simulates Session.Unnamed (fun _ _ => True) (Run.tell line) (Run.tell line) := by
  refine Simulates.changed fun before former start => ?_
  rw [tell_frame, tell_frame former]
  exact ⟨start.set, start.settings, start.emission, start.instructionEmitters, start.registry,
    start.elements, start.blocks⟩

/-- The functions of instructions are the same without names. -/
theorem emitInstructions_unnamed (instructions : List Instruction) :
    Simulates Session.Unnamed Eq (emitInstructions instructions)
      (emitInstructions (instructions.map Instruction.unnamed)) := by
  induction instructions with
  | nil => exact .pure rfl
  | cons instruction rest inductionHypothesis =>
    refine (emit_unnamed (newEmitter_unnamed (some instruction) _)).follow fun id => ?_
    refine (emit_unnamed (instructionFunction_unnamed _ instruction)).follow fun function => ?_
    refine (Simulates.changed fun before former start => ?_).bind fun _ _ _ => ?_
    · exact { start with instructionEmitters := by rw [start.instructionEmitters] }
    · refine inductionHypothesis.follow fun functions => ?_
      exact .pure rfl

/-- The rows of a parameter table are the same without names. -/
theorem parameterRows_unnamed (instruction : Instruction) (imposed : List (String × Domain))
    (parameters : List String) :
    Simulates Session.Unnamed Eq (parameterRows instruction imposed parameters)
      (parameterRows instruction.unnamed imposed parameters) := by
  induction parameters with
  | nil => exact .pure rfl
  | cons parameter rest inductionHypothesis =>
    refine (ofExcept_simulates (rowDomain instruction imposed parameter)).follow fun domain => ?_
    refine (Simulates.changed fun before former start => ?_).bind fun _ _ _ => ?_
    · exact { start with registry := by rw [start.registry] }
    · refine inductionHypothesis.follow fun rows => ?_
      exact .pure rfl

/-- The parameter tables are the same without names. -/
theorem parameterTables_unnamed (entries : List (Instruction × Emitter)) :
    Simulates Session.Unnamed Eq (parameterTables entries)
      (parameterTables (entries.map fun entry => (entry.1.unnamed, entry.2.unnamed))) := by
  induction entries with
  | nil => exact .pure rfl
  | cons entry rest inductionHypothesis =>
    obtain ⟨instruction, emitter⟩ := entry
    simp only [List.map_cons, parameterTables, Emitter.unnamed]
    by_cases bare : emitter.parameters.isEmpty = true
    · rw [if_pos bare, if_pos bare]
      exact inductionHypothesis
    · rw [if_neg bare, if_neg bare]
      refine (parameterRows_unnamed instruction _ _).follow fun rows => ?_
      refine inductionHypothesis.follow fun tables => ?_
      exact .pure rfl

/-- The operand tables are the same without names. -/
theorem operandTables_unnamed (entries : List (Instruction × Emitter)) :
    operandTables (entries.map fun entry => (entry.1.unnamed, entry.2.unnamed)) =
      operandTables entries := by
  induction entries with
  | nil => rfl
  | cons entry rest inductionHypothesis =>
    simp only [List.map_cons, operandTables, inductionHypothesis]
    rfl

/-- The declaration of a parameter structure is the same without names. -/
theorem parameterStructure_unnamed (basic : Bool) :
    Simulates Session.Unnamed Eq (parameterStructure basic) (parameterStructure basic) := by
  refine Simulates.read.bind fun before former start => ?_
  rw [start.settings]
  refine (ofExcept_simulates _).follow fun layout => ?_
  exact (tell_unnamed _).bind fun _ _ _ => .pure rfl

/-- A phase produces the same elements without names, up to the comments of routines. -/
theorem produce_unnamed (phase : Phase) :
    Simulates Session.Unnamed (SameElements phase) (produce phase) (produce phase) := by
  cases phase with
  | instructionFunctions =>
    refine Simulates.read.bind fun before former start => ?_
    rw [start.set]
    exact emitInstructions_unnamed _
  | orderingFunctions =>
    refine emit_unnamed (read_unnamed fun before => ?_)
    exact emitOrderings_unnamed 0 _
  | permutationTables =>
    refine Simulates.read.bind fun before former start => .pure ?_
    rw [start.emission]
    rfl
  | routineFunctions => exact emit_unnamed emitRoutines_unnamed
  | instructions =>
    refine Simulates.read.bind fun before former start => .pure ?_
    rw [start.encoded_eq, List.map_map]
    rfl
  | operands =>
    refine Simulates.read.bind fun before former start => ?_
    rw [start.encoded_eq, operandTables_unnamed]
    exact ofExcept_simulates _
  | mnemonics =>
    refine Simulates.read.bind fun before former start => .pure ?_
    rw [start.encoded_eq, List.map_map]
    rfl
  | parameters =>
    refine Simulates.read.bind fun before former start => ?_
    rw [start.encoded_eq]
    exact parameterTables_unnamed _
  | parameterStructures =>
    refine (parameterStructure_unnamed false).follow fun full => ?_
    refine (parameterStructure_unnamed true).follow fun basic => ?_
    exact .pure rfl
  | accessorStubs => exact ofExcept_simulates (Parameters.Accessor.functions true)
  | domains =>
    refine Simulates.read.bind fun before former start => .pure ?_
    rw [start.registry]
    rfl
  | enumerations =>
    refine Simulates.read.bind fun before former start => ?_
    rw [start.set, enumerations_unnamed]
    exact ofExcept_simulates _
  | accessors => exact ofExcept_simulates (Parameters.Accessor.functions false)

/-- The block of a phase is laid out the same way without names, and is the same unless it is
that of routines. -/
theorem blockText_unnamed {phase : Phase} {elements others : List Code.Element}
    (same : SameElements phase elements others) (implementing : Bool) :
    Simulates Session.Unnamed (fun block text => phase ≠ .routineFunctions → block = text)
      (blockText elements implementing) (blockText others implementing) := by
  refine Simulates.read.bind fun before former start => ?_
  rw [start.settings]
  unfold SameElements at same
  by_cases shared : phase = .routineFunctions
  · rw [if_pos shared] at same
    exact ofExcept_related (outcome_render same ..) fun _ _ _ _ other => absurd shared other
  · rw [if_neg shared] at same
    rw [same]
    exact (ofExcept_simulates _).weaken fun _ _ equal _ => equal

/-- A phase runs the same way without names. -/
theorem runOne_unnamed (phase : Phase) :
    Simulates Session.Unnamed (fun block text => phase ≠ .routineFunctions → block = text)
      (runOne phase) (runOne phase) := by
  refine Simulates.read.bind fun before former start => ?_
  rw [start.checkPhase_eq]
  refine (ofExcept_simulates _).bind fun _ _ _ => ?_
  refine (tell_unnamed _).bind fun _ _ _ => ?_
  refine (produce_unnamed phase).bind fun elements others same => ?_
  refine (Simulates.changed fun middle further beside => ?_).bind fun _ _ _ => ?_
  · exact { beside with elements := List.rel_append beside.elements (.cons ⟨rfl, same⟩ .nil) }
  · refine (blockText_unnamed same _).bind fun block text equal => ?_
    refine (Simulates.changed fun middle further beside => ?_).bind fun _ _ _ => .pure equal
    exact { beside with blocks := List.rel_append beside.blocks (.cons ⟨rfl, equal⟩ .nil) }

/-- Phases run the same way without names, one after the other. -/
theorem runAll_unnamed (names : List String) :
    Simulates Session.Unnamed Eq (runAll names) (runAll names) := by
  induction names with
  | nil => exact .pure rfl
  | cons name rest inductionHypothesis =>
    have named : Simulates Session.Unnamed (fun _ _ => True) (runNamed name) (runNamed name) := by
      unfold runNamed
      cases Phase.ofName? name with
      | none => exact .refused _
      | some phase => exact (runOne_unnamed phase).weaken fun _ _ _ => trivial
    exact named.bind fun _ _ _ => inductionHypothesis

/-- All phases run the same way without names. -/
theorem generate_unnamed : Simulates Session.Unnamed Eq generate generate := by
  refine (ofExcept_simulates _).follow fun names => ?_
  exact runAll_unnamed names

/-- A session over a set starts as one over the set without names. -/
theorem start_unnamed (set : InstructionSet) (settings : Settings) :
    (Session.start set settings).Unnamed (.start set.unnamed settings) := by
  have plain : Session.Unnamed ⟨set, settings, .empty, [], .empty, [], [], ""⟩
      ⟨set.unnamed, settings, .empty, [], .empty, [], [], ""⟩ :=
    ⟨rfl, rfl, rfl, rfl, rfl, .nil, .nil⟩
  exact (tell_unnamed _ _ _ plain).2

/-- The elements that a phase has left behind, with its block as their text. -/
def Session.Shows (session : Session) (phase : Phase) (elements : List Code.Element) : Prop :=
  session.elements.lookup phase = some elements ∧ ∃ block,
    session.blocks.lookup phase = some block ∧
    Code.render elements session.settings.indent session.settings.width (!phase.forHeader) =
      .ok block

/-- In a complete run the routines leave their functions behind. -/
theorem generate_shows {set : InstructionSet} {settings : Settings} {final : Session}
    (ran : generate (.start set settings) = .ok () final) :
    ∃ functions, final.Shows .routineFunctions functions := by
  have split : Phase.all =
      [.instructionFunctions, .orderingFunctions, .permutationTables] ++
        .routineFunctions :: Phase.all.drop 4 := rfl
  obtain ⟨_, functions, block, _, -, -, printed, -, listed, written⟩ := generate_made ran split
  exact ⟨functions, listed, block, written, printed⟩

/-- Functions that differ from the same ones in their comments at most do so from each other. -/
theorem sameFunctions_meet {functions others common : List Code.Element}
    (first : List.Forall₂ SameFunction functions common)
    (second : List.Forall₂ SameFunction others common) :
    List.Forall₂ SameFunction functions others := by
  induction first generalizing others with
  | nil =>
    cases second
    exact .nil
  | @cons function _ rest _ one _ inductionHypothesis =>
    cases second with
    | @cons other _ _ _ two further =>
      refine .cons ?_ (inductionHypothesis further)
      cases one
      cases two
      exact .commented ..

/-- Two sets that differ in the names of routines alone are generated the same way: both
generations succeed or both are refused for the same failure. All blocks but that of the
functions of routines are the same, and so are all scalars; these functions are as many, and
in their places differ in their comments at most. -/
theorem generate_of_renamed {set other : InstructionSet} (renamed : set.unnamed = other.unnamed)
    (settings : Settings) :
    match generate (.start set settings), generate (.start other settings) with
    | .ok _ after, .ok _ latter =>
      (∀ phase ≠ .routineFunctions, after.blocks.lookup phase = latter.blocks.lookup phase) ∧
      after.scalars = latter.scalars ∧
      ∃ functions others, after.Shows .routineFunctions functions ∧
        latter.Shows .routineFunctions others ∧ List.Forall₂ SameFunction functions others
    | .error failure _, .error cause _ => failure = cause
    | _, _ => False := by
  -- Neither set is the other one renamed; both are taken to the set without names.
  have beside := (generate_unnamed.meet generate_unnamed) _ _
    ⟨_, start_unnamed set settings, renamed ▸ start_unnamed other settings⟩
  cases ran : generate (.start set settings) with
  | error failure after =>
    cases run : generate (.start other settings) <;> rw [ran, run] at beside
    case ok => exact beside
    case error => exact beside.1
  | ok value after =>
    cases run : generate (.start other settings) <;> rw [ran, run] at beside
    case error => exact beside
    case ok found latter =>
      obtain ⟨-, common, one, two⟩ := beside
      obtain ⟨functions, shown⟩ := generate_shows ran
      obtain ⟨others, visible⟩ := generate_shows run
      obtain ⟨these, first, alike⟩ := one.functions shown.1
      obtain ⟨those, second, same⟩ := two.functions visible.1
      cases first.symm.trans second
      refine ⟨?_, ?_, functions, others, shown, visible, sameFunctions_meet alike same⟩
      · intro phase different
        exact (one.block_eq different).symm.trans (two.block_eq different)
      · exact one.scalars_eq.symm.trans two.scalars_eq

/-- Two instructions of which each calls a routine; the routines have given names and the same
members. -/
def callingSet (first second : String) : InstructionSet :=
  let calling (name routine : String) (position : Nat) : Instruction :=
    ⟨name, "mov", "", [], [.call (.routine routine [.write (.param "imm0") 8])], [], [], [], [],
      some position⟩
  ⟨[calling "load" first 0, calling "store" second 1]⟩

/-- It does not matter which of the two names the shared function is commented with. -/
theorem generate_of_callingSets : ∃ after latter functions others,
    generate (.start (callingSet "first" "second") .default) = .ok () after ∧
    generate (.start (callingSet "second" "first") .default) = .ok () latter ∧
    after.blocks.lookup .instructionFunctions = latter.blocks.lookup .instructionFunctions ∧
    after.scalars = latter.scalars ∧ after.Shows .routineFunctions functions ∧
    latter.Shows .routineFunctions others ∧ List.Forall₂ SameFunction functions others := by
  obtain ⟨after, ran⟩ := @generate_succeeds (callingSet "first" "second") (by decide +kernel)
  obtain ⟨latter, run⟩ := @generate_succeeds (callingSet "second" "first") (by decide +kernel)
  have beside := @generate_of_renamed (callingSet "first" "second") (callingSet "second" "first")
    rfl .default
  rw [ran, run] at beside
  obtain ⟨blocks, scalars, functions, others, shown, visible, same⟩ := beside
  exact ⟨after, latter, functions, others, ran, run, blocks _ (by decide), scalars, shown,
    visible, same⟩

end Generator

end EncoderTables
