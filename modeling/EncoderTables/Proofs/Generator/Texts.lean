import EncoderTables.Proofs.Generator.Effects
import EncoderTables.Proofs.Generator.Writing

/-!
# Texts of bodies

The code of a body depends on the actions, on the instruction that they belong to and on the
numbers of the shared functions that they call, and on nothing else. Here it is found from
these alone, without an emission. Writing a body gives this code, with the numbers that the
ledgers hold by then, or fails as it does; so whether a body can be written, and why it
cannot, does not depend on what has been emitted before.
-/

namespace EncoderTables.Generator

/-- The numbers of shared functions: of the routine that a call names and of a list of
unordered writes. -/
structure Numbers where
  routine : Node → Nat
  ordering : List Node → Nat

namespace Numbers

/-- The number of a routine, which is looked up by its content. -/
def ofRoutine (numbers : Numbers) (routine : Node) : Except Failure Nat :=
  if !routine.isFixed then refuse .noFixedContent else .ok (numbers.routine routine)

/-- The number of a list of unordered writes, which are looked up by their content. -/
def ofOrdering (numbers : Numbers) (writes : List Node) : Except Failure Nat :=
  if !Node.areFixed writes then refuse .noFixedContent else .ok (numbers.ordering writes)

end Numbers

/-- Refuse with a cause; the instruction that the code belongs to is named, if any. -/
def blame {α : Type} (owner : Option String) (cause : Cause) : Except Failure α :=
  .error ⟨cause, owner⟩

/-- A parameter that is read must be known. -/
def checkUse (owner : Option String) (name : String) : Except Failure Unit :=
  if Parameters.isKnown name then .ok () else blame owner (.unknownParameter name)

/-- The code of an expression. -/
def expressionCode (owner : Option String) : Node → Except Failure String
  | .literal value => constantText value
  | .literalList _ => refuse .notANumber
  | .param name => do
    checkUse owner name
    return fieldAccess name
  | .isSet name =>
    if !Parameters.isOptional name then blame owner (.noPresenceFlag name)
    else do
      checkUse owner name
      return fieldAccess (Parameters.presenceFlag name)
  | .unary symbol inner => do
    let operand ← expressionCode owner inner
    if symbol = "" then refuse .outOfRange
    else if isFunctionName symbol then return symbol ++ "(" ++ operand ++ ")"
    else return "(" ++ symbol ++ operand ++ ")"
  | .binary symbol left right => do
    let first ← expressionCode owner left
    let second ← expressionCode owner right
    return "(" ++ first ++ " " ++ symbol ++ " " ++ second ++ ")"
  | node => blame owner (.notExpression node.shown)

/-- The terms of a packed value. -/
def packedCode (owner : Option String) :
    (room : Int) → List Node → List Int → Except Failure (List String)
  | room, value :: values, width :: widths => do
    let code ← expressionCode owner value
    let mask ← packedMask width
    let term := "((" ++ code ++ " & " ++ mask ++ ") << " ++ toString (room - width) ++ ")"
    let terms ← packedCode owner (room - width) values widths
    return term :: terms
  | _, _, _ => return []

/-- The code that performs unordered writes. -/
def unorderedCode (numbers : Numbers) (owner : Option String) (writes : List Node)
    (order : String) : Except Failure String :=
  if owner.isNone then refuse .nestedUnorderedWrites
  else do
    let id ← numbers.ofOrdering writes
    let orders := Permutation.count writes.length
    let width ← Parameters.fieldWidth order false
    if orders - 1 ≥ Bits.capacity width then blame owner (.tooManyOrders order orders)
    else do
      checkUse owner order
      return callText (Naming.orderingFunction (toString id)) ("ctx, " ++ fieldAccess order)

mutual

/-- The code of an action. -/
def actionCode (numbers : Numbers) (owner : Option String) : Node → Except Failure String
  | .write value size => do
    let code ← expressionCode owner value
    return writeText size code
  | .packed values sizes => do
    let size := Node.totalWidth sizes
    let terms ← packedCode owner size values (sizes.map Node.fieldWidth)
    return writeText size (" | ".intercalate terms)
  | .branch condition taken otherwise => do
    let test ← expressionCode owner condition
    let first ← codeAll numbers owner taken
    let head := "if(" ++ test ++ ") \x7b\n" ++ first
    if otherwise.isEmpty then return head ++ "\x7d\n"
    else
      let second ← codeAll numbers owner otherwise
      return head ++ "\x7d else \x7b\n" ++ second ++ "\x7d\n"
  | .abort message =>
    return "evoasm_x64_enc_ctx_error(ctx, " ++ literalText message ++ ");\n" ++ failText
  | .call routine => do
    let id ← numbers.ofRoutine routine
    return callText (Naming.routineFunction (toString id)) "ctx"
  | .unordered [single] _ => actionCode numbers owner single
  | .unordered writes order => unorderedCode numbers owner writes order.plain
  | node => blame owner (.notAction node.shown)

/-- The code of several actions. -/
def codeAll (numbers : Numbers) (owner : Option String) : List Node → Except Failure String
  | [] => return ""
  | node :: rest => do
    let first ← actionCode numbers owner node
    let others ← codeAll numbers owner rest
    return first ++ others

end

/-- What is no expression has no code as one. -/
theorem expressionCode_other (owner : Option String) {node : Node}
    (other : node.isExpression = false) :
    expressionCode owner node = blame owner (.notExpression node.shown) := by
  cases node <;> first | rfl | cases other

/-- What is no action has no code as one. -/
theorem actionCode_other (numbers : Numbers) (owner : Option String) {node : Node}
    (other : node.isAction = false) :
    actionCode numbers owner node = blame owner (.notAction node.shown) := by
  cases node <;> first | rfl | cases other

/-- Unordered writes have code of their own unless there is only one of them. -/
theorem actionCode_unordered (numbers : Numbers) (owner : Option String) {writes : List Node}
    (several : writes.length ≠ 1) (order : Scalar) :
    actionCode numbers owner (.unordered writes order) =
      unorderedCode numbers owner writes order.plain := by
  rw [actionCode]
  rintro write rfl
  exact several rfl

/-- The cases of a shared function of unordered writes, numbered from an index on. -/
def orderedCode (numbers : Numbers) : (index : Nat) → List Node → Except Failure String
  | _, [] => return ""
  | index, write :: rest => do
    let code ← actionCode numbers none write
    let others ← orderedCode numbers (index + 1) rest
    return "case " ++ toString index ++ ": \x7b\n" ++ code ++ "break;\n\x7d\n" ++ others

namespace Emission

/-- An emission in which all that has been requested has its place, and keeps it. The body of
a shared function requests no unordered writes. -/
structure Extends (owner : Option String) (before after : Emission) : Prop where
  places : before.places <+: after.places
  routines : before.routines.Grown after.routines
  orderings : before.orderings.Grown after.orderings
  shared : owner = none →
    after.orderings = before.orderings ∧ after.permutations = before.permutations

/-- Nothing has happened. -/
theorem Extends.refl (owner : Option String) (emission : Emission) :
    emission.Extends owner emission :=
  ⟨List.prefix_rfl, .refl _, .refl _, fun _ => ⟨rfl, rfl⟩⟩

/-- One step after another. -/
theorem Extends.trans {owner : Option String} {before middle after : Emission}
    (head : before.Extends owner middle) (tail : middle.Extends owner after) :
    before.Extends owner after where
  places := head.places.trans tail.places
  routines := head.routines.trans tail.routines
  orderings := head.orderings.trans tail.orderings
  shared unowned :=
    ⟨(tail.shared unowned).1.trans (head.shared unowned).1,
      (tail.shared unowned).2.trans (head.shared unowned).2⟩

/-- A change of emitters that leaves all of them at their places. -/
theorem Reshaped.extends {before after : Emission} (reshaped : before.Reshaped after)
    (owner : Option String) : before.Extends owner after := by
  obtain ⟨frame, places⟩ := reshaped
  rw [frame] at places ⊢
  exact ⟨by rw [places], .refl _, .refl _, fun _ => ⟨rfl, rfl⟩⟩

/-- The numbers of what has been requested are those of its functions. -/
structure Numbered (emission : Emission) (numbers : Numbers) : Prop where
  routines : ∀ routine id, emission.routines.id? routine = some id → numbers.routine routine = id
  orderings : ∀ writes id, emission.orderings.id? writes = some id → numbers.ordering writes = id

/-- What has been requested first keeps its numbers. -/
theorem Numbered.earlier {owner : Option String} {before after : Emission} {numbers : Numbers}
    (numbered : after.Numbered numbers) (grown : before.Extends owner after) :
    before.Numbered numbers :=
  ⟨fun routine id found => numbered.routines routine id (grown.routines.id? found),
    fun writes id found => numbered.orderings writes id (grown.orderings.id? found)⟩

end Emission

/-- A step for the body of an owner that finds what the numbers of shared functions determine,
or fails as this does. -/
def Finds {α : Type} (owner : Option String) (step : Emit α)
    (code : Numbers → Except Failure α) : Prop :=
  ∀ before, match step before with
    | .ok value after => before.Extends owner after ∧
      ∀ numbers, after.Numbered numbers → code numbers = .ok value
    | .error failure after => before.Extends owner after ∧
      ∀ numbers, after.Numbered numbers → code numbers = .error failure

namespace Finds

variable {α β : Type} {owner : Option String}

/-- A value alone is found at once. -/
theorem pure (value : α) : Finds owner (Pure.pure value) fun _ => .ok value :=
  fun before => ⟨.refl owner before, fun _ _ => rfl⟩

/-- A refusal is one. -/
theorem refused (failure : Failure) :
    Finds owner (throw failure : Emit α) fun _ => .error failure :=
  fun before => ⟨.refl owner before, fun _ _ => rfl⟩

/-- Nothing follows a refusal. -/
theorem refused_bind (failure : Failure) (next : α → Emit β) :
    Finds owner ((throw failure : Emit α) >>= next) fun _ => .error failure :=
  fun before => ⟨.refl owner before, fun _ _ => rfl⟩

/-- A request is found when its number is. -/
theorem modifyGet {change : Emission → α × Emission} {code : Numbers → Except Failure α}
    (found : ∀ before, before.Extends owner (change before).2 ∧
      ∀ numbers, (change before).2.Numbered numbers → code numbers = .ok (change before).1) :
    Finds owner (MonadStateOf.modifyGet change) code := found

/-- A value that may have been refused. -/
theorem ofExcept (found : Except Failure α) : Finds owner (Emit.ofExcept found) fun _ => found := by
  cases found with
  | ok value => exact pure value
  | error failure => exact refused failure

/-- What follows a step is found with the numbers of both. -/
theorem bind {step : Emit α} {code : Numbers → Except Failure α} {next : α → Emit β}
    {nextCode : α → Numbers → Except Failure β} (first : Finds owner step code)
    (second : ∀ value, Finds owner (next value) (nextCode value)) :
    Finds owner (step >>= next) fun numbers =>
      code numbers >>= fun value => nextCode value numbers := by
  intro before
  have start := first before
  show match EStateM.bind step next before with
    | .ok .. => _
    | .error .. => _
  unfold EStateM.bind
  cases reached : step before with
  | error failure middle =>
    simp only [reached] at start ⊢
    exact ⟨start.1, fun numbers numbered => by rw [start.2 numbers numbered]; rfl⟩
  | ok value middle =>
    simp only [reached] at start
    have rest := second value middle
    show match next value middle with
      | .ok .. => _
      | .error .. => _
    cases finished : next value middle with
    | ok result after =>
      simp only [finished] at rest ⊢
      refine ⟨start.1.trans rest.1, fun numbers numbered => ?_⟩
      rw [start.2 numbers (numbered.earlier rest.1)]
      exact rest.2 numbers numbered
    | error failure after =>
      simp only [finished] at rest ⊢
      refine ⟨start.1.trans rest.1, fun numbers numbered => ?_⟩
      rw [start.2 numbers (numbered.earlier rest.1)]
      exact rest.2 numbers numbered

/-- A step that finds nothing leaves the code to what follows. -/
theorem followed {step : Emit Unit} {next : Unit → Emit β} {code : Numbers → Except Failure β}
    (first : Finds owner step fun _ => .ok ()) (second : Finds owner (next ()) code) :
    Finds owner (step >>= next) code := by
  have both := first.bind fun _ => second
  exact both

/-- A change of an emitter that leaves it at its place. -/
theorem update (id : Nat) {change : Emitter → Emitter}
    (placed : ∀ other, (change other).instruction = other.instruction ∧
      (change other).callers = other.callers) :
    Finds owner (Emit.update id change) fun _ => .ok () :=
  fun before => ⟨Emission.Reshaped.extends
    ⟨rfl, Emission.places_update before id placed⟩ owner, fun _ _ => rfl⟩

end Finds

/-- A parameter that is used is checked. -/
theorem use_finds (site : Site) (name : String) :
    Finds site.instruction (site.use name) fun _ => checkUse site.instruction name := by
  unfold Site.use checkUse
  split
  · exact .update _ (Emission.place_use · name)
  · exact .refused _

/-- A body that can fail is marked. -/
theorem markFailing_finds (site : Site) :
    Finds site.instruction site.markFailing fun _ => .ok () :=
  .update _ fun _ => ⟨rfl, rfl⟩

namespace Emission

/-- The request of a routine gives the number that the ledger gives. -/
theorem requestRoutine_fst (emission : Emission) (routine : Node) (caller : Nat) :
    (emission.requestRoutine routine caller).1 = emission.routineId routine caller := by
  rcases asked : emission.routines.request routine caller with ⟨called, routines⟩
  cases known : emission.emitted.lookup called <;>
    simp [requestRoutine, routineId, asked, known]

/-- The request of a routine extends the ledger of routines and leaves that of unordered
writes. -/
theorem requestRoutine_extends (owner : Option String) (emission : Emission) (routine : Node)
    (caller : Nat) :
    emission.Extends owner (emission.requestRoutine routine caller).2 ∧
      (emission.requestRoutine routine caller).2.routines =
        (emission.routines.request routine caller).2 := by
  have asked : emission.Extends owner (emission.askRoutine routine caller) :=
    ⟨List.prefix_rfl, emission.routines.request_grown routine caller, .refl _,
      fun _ => ⟨rfl, rfl⟩⟩
  rw [requestRoutine_snd]
  cases emission.emitted.lookup (emission.routineId routine caller) with
  | none => exact ⟨asked, rfl⟩
  | some source =>
    have reshaped := mergeFrom_reshaped (emission.askRoutine routine caller) source caller
    exact ⟨asked.trans (reshaped.extends owner),
      (congrArg Emission.routines reshaped.frame).trans rfl⟩

end Emission

/-- The request of a routine finds its number. -/
theorem requestRoutine_finds (owner : Option String) (routine : Node) (id : Nat) :
    Finds owner (Emit.requestRoutine routine id) (·.ofRoutine routine) := by
  unfold Emit.requestRoutine Numbers.ofRoutine
  cases fixed : routine.isFixed with
  | false => exact .refused_bind _ _
  | true =>
    refine .modifyGet fun before => ?_
    obtain ⟨extended, routines⟩ := before.requestRoutine_extends owner routine id
    refine ⟨extended, fun numbers numbered => congrArg Except.ok ?_⟩
    rw [before.requestRoutine_fst]
    refine numbered.routines routine _ ?_
    rw [routines]
    exact before.routines.id?_request routine id

instance : ReflBEq (List Node) := ⟨Node.beq_eq_sameAll .. ▸ Node.sameAll_refl _⟩

/-- The request of unordered writes in the body of an instruction finds their number. -/
theorem requestOrdering_finds (name : String) (writes : List Node) (id : Nat) :
    Finds (some name) (Emit.requestOrdering writes id) (·.ofOrdering writes) := by
  unfold Emit.requestOrdering Numbers.ofOrdering
  cases fixed : Node.areFixed writes with
  | false => exact .refused_bind _ _
  | true =>
    refine .modifyGet fun before => ?_
    refine ⟨⟨List.prefix_rfl, .refl _, before.orderings.request_grown writes id,
      fun unowned => by cases unowned⟩, fun numbers numbered => congrArg Except.ok ?_⟩
    exact numbered.orderings writes _ (before.orderings.id?_request writes id)

/-- The code of an expression is found. -/
theorem expression_finds (site : Site) (node : Node) :
    Finds site.instruction (expression site node) fun _ =>
      expressionCode site.instruction node := by
  induction node using Node.expression_induction with
  | literal value => exact .ofExcept _
  | literalList items => exact .refused _
  | param name => exact (use_finds site name).bind fun _ => .pure _
  | isSet name =>
    rw [expression]
    simp only [expressionCode]
    split
    · exact .refused_bind _ _
    · exact (use_finds site name).bind fun _ => .pure _
  | unary symbol inner inductionHypothesis =>
    refine inductionHypothesis.bind fun operand => ?_
    by_cases nameless : symbol = ""
    · rw [if_pos nameless, if_pos nameless]
      exact .refused_bind _ _
    · rw [if_neg nameless, if_neg nameless]
      split
      · exact .pure _
      · exact .pure _
  | binary symbol left right leftHypothesis rightHypothesis =>
    exact leftHypothesis.bind fun _ => rightHypothesis.bind fun _ => .pure _
  | other node none =>
    rw [expression_other site none, expressionCode_other site.instruction none]
    exact .refused _

/-- The terms of a packed value are found. -/
theorem packedTerms_finds (site : Site) (room : Int) (values : List Node) (widths : List Int) :
    Finds site.instruction (packedTerms site room values widths) fun _ =>
      packedCode site.instruction room values widths := by
  induction values generalizing room widths with
  | nil => exact .pure _
  | cons value values inductionHypothesis =>
    cases widths with
    | nil => exact .pure _
    | cons width widths =>
      exact (expression_finds site value).bind fun _ => (Finds.ofExcept _).bind fun _ =>
        (inductionHypothesis _ _).bind fun _ => .pure _

/-- The code that performs unordered writes is found. -/
theorem unorderedText_finds (site : Site) (writes : List Node) (order : String) :
    Finds site.instruction (unorderedText site writes order) fun numbers =>
      unorderedCode numbers site.instruction writes order := by
  obtain ⟨id, owner⟩ := site
  cases owner with
  | none => exact .refused_bind _ _
  | some name =>
    refine (requestOrdering_finds name writes id).bind fun number =>
      (Finds.ofExcept (Parameters.fieldWidth order false)).bind fun width => ?_
    by_cases wide : Permutation.count writes.length - 1 ≥ Bits.capacity width
    · rw [if_pos wide, if_pos wide]
      exact .refused_bind _ _
    · rw [if_neg wide, if_neg wide]
      refine .followed (.update id fun _ => ⟨rfl, rfl⟩) ?_
      exact (use_finds ⟨id, some name⟩ order).bind fun _ =>
        (markFailing_finds ⟨id, some name⟩).followed (.pure _)

/-- The code of actions is found. -/
theorem action_finds (site : Site) :
    (∀ node, Finds site.instruction (action site node)
      (actionCode · site.instruction node)) ∧
    (∀ nodes, Finds site.instruction (actions site nodes)
      (codeAll · site.instruction nodes)) := by
  apply Node.action_induction
  case write =>
    intro value size
    simp only [action, actionCode]
    exact (expression_finds site value).bind fun _ => .pure _
  case packed =>
    intro values sizes
    simp only [action, actionCode]
    exact (packedTerms_finds site _ values _).bind fun _ => .pure _
  case branch =>
    intro condition taken otherwise takenHypothesis otherwiseHypothesis
    simp only [action, actionCode]
    refine (expression_finds site condition).bind fun test => takenHypothesis.bind fun first => ?_
    cases otherwise with
    | nil => exact .pure _
    | cons node rest => exact otherwiseHypothesis.bind fun _ => .pure _
  case abort =>
    intro message
    simp only [action, actionCode]
    exact (markFailing_finds site).followed (.pure _)
  case call =>
    intro routine
    simp only [action, actionCode]
    exact (requestRoutine_finds _ routine _).bind fun _ =>
      (markFailing_finds site).followed (.pure _)
  case single =>
    intro single order inductionHypothesis
    simp only [action, actionCode]
    exact inductionHypothesis
  case several =>
    intro writes order several
    simp only [action_unordered site several, actionCode_unordered _ _ several]
    exact unorderedText_finds site writes order.plain
  case other =>
    intro node none
    simp only [action_other site none, actionCode_other _ _ none]
    exact .refused _
  case nil =>
    simp only [actions, codeAll]
    exact .pure _
  case cons =>
    intro node rest firstHypothesis restHypothesis
    simp only [actions, codeAll]
    exact firstHypothesis.bind fun _ => restHypothesis.bind fun _ => .pure _

/-- The cases of unordered writes are found. -/
theorem orderedCases_finds (emitter index : Nat) (writes : List Node) :
    Finds none (orderedCases ⟨emitter, none⟩ index writes) (orderedCode · index writes) := by
  induction writes generalizing index with
  | nil => exact .pure _
  | cons write rest inductionHypothesis =>
    exact ((action_finds ⟨emitter, none⟩).1 write).bind fun _ =>
      (inductionHypothesis (index + 1)).bind fun _ => .pure _

end EncoderTables.Generator
