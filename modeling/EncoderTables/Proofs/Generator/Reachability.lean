import EncoderTables.Proofs.Generator.Histories

/-!
# Routines that are reached

An instruction reaches the routines that its encoding calls, in branches and among unordered
writes as well, and those that routines call in turn. Whatever has been asked of a session,
its ledger holds only routines that some instruction of the set reaches, each of them once:
what a body requests it calls, and only bodies of instructions, of requested unordered writes
and of requested routines are ever written. That holds behind refusals as well, since a body
that is refused has requested nothing but what it calls.
-/

namespace EncoderTables

namespace Node

mutual

/-- The routines that an action calls, in branches and among unordered writes as well. -/
def called : Node → List Node
  | .branch _ taken otherwise => calledAll taken ++ calledAll otherwise
  | .call target => [target]
  | .unordered writes _ => calledAll writes
  | _ => []

/-- The routines that several actions call. -/
def calledAll : List Node → List Node
  | [] => []
  | node :: rest => called node ++ calledAll rest

end

/-- Lists of routines of which each one is the same as one of the others stay so together. -/
theorem same_append {first second former latter : List Node}
    (head : ∀ target ∈ second, ∃ other ∈ first, same other target = true)
    (tail : ∀ target ∈ latter, ∃ other ∈ former, same other target = true) :
    ∀ target ∈ second ++ latter, ∃ other ∈ first ++ former, same other target = true := by
  intro target member
  rcases List.mem_append.mp member with early | late
  · obtain ⟨other, listed, equal⟩ := head target early
    exact ⟨other, List.mem_append_left _ listed, equal⟩
  · obtain ⟨other, listed, equal⟩ := tail target late
    exact ⟨other, List.mem_append_right _ listed, equal⟩

mutual

/-- Actions that are the same call routines that are the same. -/
theorem called_of_same : (left right : Node) → same left right = true →
    ∀ target ∈ called right, ∃ other ∈ called left, same other target = true
  | .branch a cs es, right => by
    intro equal
    cases right with
    | branch b ds fs =>
      simp only [same, Bool.and_eq_true] at equal
      simp only [called]
      exact same_append (calledAll_of_sameAll cs ds equal.1.2)
        (calledAll_of_sameAll es fs equal.2)
    | _ => cases equal
  | .call a, right => by
    intro equal
    cases right with
    | call b =>
      have part : same a b = true := equal
      simpa only [called, List.mem_singleton, forall_eq, exists_eq_left] using part
    | _ => cases equal
  | .unordered as order, right => by
    intro equal
    cases right with
    | unordered bs other =>
      simp only [same, Bool.and_eq_true] at equal
      simpa only [called] using calledAll_of_sameAll as bs equal.1
    | _ => cases equal
  | .bare _, right | .group _, right | .literal _, right | .literalList _, right
  | .param _, right | .isSet _, right | .unary .., right | .binary .., right | .write .., right
  | .packed .., right | .abort _, right | .routine .., right => by
    intro equal
    cases right <;> first | cases equal | simp [called]

/-- Lists of actions that are the same call routines that are the same. -/
theorem calledAll_of_sameAll : (left right : List Node) → sameAll left right = true →
    ∀ target ∈ calledAll right, ∃ other ∈ calledAll left, same other target = true
  | [], [] => by simp [calledAll]
  | [], _ :: _ | _ :: _, [] => by
    intro equal
    cases equal
  | a :: as, b :: bs => by
    intro equal
    simp only [sameAll, Bool.and_eq_true] at equal
    simp only [calledAll]
    exact same_append (called_of_same a b equal.1) (calledAll_of_sameAll as bs equal.2)

end

end Node

namespace Generator

open Node Steps

/-- The routines that the encodings of a set lead to, over calls in other routines as well. -/
inductive Reachable (set : InstructionSet) : Node → Prop where
  /-- An encoding calls the routine. -/
  | encoding {instruction : Instruction} {target : Node} :
    instruction ∈ set.instructions → target ∈ calledAll instruction.encoding →
      Reachable set target
  /-- A routine that is reached calls the routine. -/
  | routine {caller target : Node} {members : List Node} :
    Reachable set caller → caller.routineActions? = some members →
      target ∈ calledAll members → Reachable set target

mutual

/-- A routine that an action calls is requested by its body, or is called among unordered
writes that are. -/
theorem effects_of_called : (node : Node) → ∀ target ∈ called node,
    .routine target ∈ effects node ∨
      ∃ writes, .ordering writes ∈ effects node ∧ target ∈ calledAll writes
  | .branch _ taken otherwise => by
    intro target member
    simp only [called, List.mem_append] at member
    simp only [effects, List.mem_append]
    rcases member with inside | inside
    · rcases effectsAll_of_called taken target inside with here | ⟨writes, there, among⟩
      · exact .inl (.inl (.inr here))
      · exact .inr ⟨writes, .inl (.inr there), among⟩
    · rcases effectsAll_of_called otherwise target inside with here | ⟨writes, there, among⟩
      · exact .inl (.inr here)
      · exact .inr ⟨writes, .inr there, among⟩
  | .call target => by simp [called, effects]
  | .unordered writes order => by
    intro target member
    by_cases single : writes.length = 1
    · simpa only [effects, if_pos single] using effectsAll_of_called writes target member
    · exact .inr ⟨writes, by simp [effects, single], member⟩
  | .bare _ | .group _ | .literal _ | .literalList _ | .param _ | .isSet _ | .unary .. |
    .binary .. | .write .. | .packed .. | .abort _ | .routine .. => by
    simp [called]

/-- A routine that several actions call is requested by their body, or is called among
unordered writes that are. -/
theorem effectsAll_of_called : (nodes : List Node) → ∀ target ∈ calledAll nodes,
    .routine target ∈ effectsAll nodes ∨
      ∃ writes, .ordering writes ∈ effectsAll nodes ∧ target ∈ calledAll writes
  | [] => by simp [calledAll]
  | node :: rest => by
    intro target member
    simp only [calledAll, List.mem_append] at member
    simp only [effectsAll, List.mem_append]
    rcases member with inside | inside
    · rcases effects_of_called node target inside with here | ⟨writes, there, among⟩
      · exact .inl (.inl here)
      · exact .inr ⟨writes, .inl there, among⟩
    · rcases effectsAll_of_called rest target inside with here | ⟨writes, there, among⟩
      · exact .inl (.inr here)
      · exact .inr ⟨writes, .inr there, among⟩

end

/-- Whether actions can be written is found out with any numbers. -/
theorem writable_iff_isOk (numbers : Numbers) (owner : Option String) (nodes : List Node) :
    (codeAll numbers owner nodes).isOk = true ↔ Writable owner nodes := by
  constructor
  · intro succeeds
    cases found : codeAll numbers owner nodes with
    | ok code => exact ⟨numbers, code, found⟩
    | error failure =>
      rw [found] at succeeds
      cases succeeds
  · intro writable
    obtain ⟨code, found⟩ := writable.code numbers
    rw [found]
    rfl

instance (owner : Option String) (nodes : List Node) : Decidable (Writable owner nodes) :=
  decidable_of_iff _ (writable_iff_isOk ⟨fun _ => 0, fun _ => 0⟩ owner nodes)

mutual

/-- Whether each routine that an action leads to translates. -/
def leadsToCode : Node → Bool
  | .branch _ taken otherwise => allLeadToCode taken && allLeadToCode otherwise
  | .call (.routine _ members) => Writable none members && allLeadToCode members
  | .call _ => false
  | .unordered writes _ => allLeadToCode writes
  | _ => true

/-- Whether each routine that several actions lead to translates. -/
def allLeadToCode : List Node → Bool
  | [] => true
  | node :: rest => leadsToCode node && allLeadToCode rest

end

mutual

/-- A routine that is called in an action that leads to code translates, and leads to code. -/
theorem translates_of_leadsToCode : (node : Node) → leadsToCode node = true →
    ∀ target ∈ called node, Translates target ∧
      ∀ members, target.routineActions? = some members → allLeadToCode members = true
  | .branch _ taken otherwise => by
    intro leads target member
    simp only [leadsToCode, Bool.and_eq_true] at leads
    rcases List.mem_append.mp member with inside | inside
    · exact translates_of_allLeadToCode taken leads.1 target inside
    · exact translates_of_allLeadToCode otherwise leads.2 target inside
  | .call target => by
    intro leads other member
    obtain rfl := List.mem_singleton.mp member
    cases other with
    | routine name own =>
      simp only [leadsToCode, Bool.and_eq_true, decide_eq_true_eq] at leads
      refine ⟨⟨own, rfl, leads.1⟩, fun members same => ?_⟩
      obtain rfl := Option.some.inj same
      exact leads.2
    | _ => simp [leadsToCode] at leads
  | .unordered writes _ => by
    intro leads target member
    exact translates_of_allLeadToCode writes leads target member
  | .bare _ | .group _ | .literal _ | .literalList _ | .param _ | .isSet _ | .unary .. |
    .binary .. | .write .. | .packed .. | .abort _ | .routine .. => by
    simp [called]

/-- A routine that is called in actions that lead to code translates, and leads to code. -/
theorem translates_of_allLeadToCode : (nodes : List Node) → allLeadToCode nodes = true →
    ∀ target ∈ calledAll nodes, Translates target ∧
      ∀ members, target.routineActions? = some members → allLeadToCode members = true
  | [] => by simp [calledAll]
  | node :: rest => by
    intro leads target member
    simp only [allLeadToCode, Bool.and_eq_true] at leads
    rcases List.mem_append.mp member with inside | inside
    · exact translates_of_leadsToCode node leads.1 target inside
    · exact translates_of_allLeadToCode rest leads.2 target inside

end

/-- All routines that a set reaches translate when its encodings lead to code. -/
theorem Reachable.translates {set : InstructionSet}
    (lead : ∀ instruction ∈ set.instructions, allLeadToCode instruction.encoding = true)
    {routine : Node} (reachable : Reachable set routine) : Translates routine := by
  suffices both : Translates routine ∧
      ∀ members, routine.routineActions? = some members → allLeadToCode members = true from both.1
  induction reachable with
  | encoding member calls => exact translates_of_allLeadToCode _ (lead _ member) _ calls
  | routine _ actions calls inductionHypothesis =>
    exact translates_of_allLeadToCode _ (inductionHypothesis.2 _ actions) _ calls

namespace Emission

/-- An emission whose ledgers hold each routine once, and only routines that are wanted, as are
those that requested unordered writes call. -/
structure Sound (wanted : Node → Prop) (emission : Emission) : Prop where
  distinct : emission.routines.keys.Pairwise fun first second => (first == second) = false
  routines : ∀ routine ∈ emission.routines.keys, wanted routine
  orderings : ∀ writes ∈ emission.orderings.keys, ∀ target ∈ calledAll writes, wanted target

/-- Nothing has been requested. -/
theorem empty_sound (wanted : Node → Prop) : empty.Sound wanted :=
  ⟨.nil, fun _ member => absurd member List.not_mem_nil,
    fun _ member => absurd member List.not_mem_nil⟩

variable {wanted : Node → Prop}

/-- What an emission holds is sound when its ledgers are. -/
theorem Sound.congr {before after : Emission} (sound : before.Sound wanted)
    (routines : after.routines = before.routines) (orderings : after.orderings = before.orderings) :
    after.Sound wanted :=
  ⟨routines ▸ sound.distinct, routines ▸ sound.routines, orderings ▸ sound.orderings⟩

/-- A merge requests nothing. -/
theorem Sound.mergeAll {before : Emission} (sound : before.Sound wanted) (source : Nat)
    (targets : List Nat) :
    (targets.foldl (fun emission target => emission.mergeFrom source target) before).Sound
      wanted := by
  have frame := (mergeAll_reshaped source targets before).frame
  exact sound.congr ((congrArg Emission.routines frame).trans rfl)
    ((congrArg Emission.orderings frame).trans rfl)

/-- A routine that is wanted may be requested. -/
theorem Sound.requestRoutine {before : Emission} (sound : before.Sound wanted) {target : Node}
    (want : wanted target) (id : Nat) : (before.requestRoutine target id).2.Sound wanted := by
  have routines := (before.requestRoutine_extends none target id).2
  have orderings := (requestRoutine_frame before target id).2.2
  constructor
  case distinct =>
    rw [routines, Ledger.keys_request_eq]
    split
    · exact sound.distinct
    · next new =>
      have apart : ∀ key ∈ before.routines.keys, (key == target) = false := by
        simpa using new
      exact List.pairwise_append.mpr ⟨sound.distinct, List.pairwise_singleton ..,
        fun key member other single => List.mem_singleton.mp single ▸ apart key member⟩
  case routines =>
    rw [routines, Ledger.keys_request_eq]
    split
    · exact sound.routines
    · intro routine member
      rcases List.mem_append.mp member with old | new
      · exact sound.routines routine old
      · exact List.mem_singleton.mp new ▸ want
  case orderings =>
    rw [orderings]
    exact sound.orderings

/-- Unordered writes may be requested when the routines that they call are wanted. -/
theorem Sound.requestOrdering {before : Emission} (sound : before.Sound wanted)
    {writes : List Node} (want : ∀ target ∈ calledAll writes, wanted target) (id : Nat) :
    (before.requestOrdering writes id).2.Sound wanted := by
  refine ⟨sound.distinct, sound.routines, fun key member => ?_⟩
  have listed : key ∈ (before.orderings.request writes id).2.keys := member
  rcases before.orderings.keys_request writes id with same | new
  · exact sound.orderings key (same ▸ listed)
  · rcases List.mem_append.mp (new ▸ listed) with old | own
    · exact sound.orderings key old
    · exact List.mem_singleton.mp own ▸ want

end Emission

section Bodies

variable {wanted : Node → Prop}

/-- What is recorded about a body requests nothing. -/
theorem update_sound (id : Nat) (change : Emitter → Emitter) :
    Keeps (Preserved (Emission.Sound wanted)) (Emit.update id change) :=
  Keeps.changed fun _ sound => sound.congr rfl rfl

/-- The use of a parameter requests nothing. -/
theorem use_sound (site : Site) (name : String) :
    Keeps (Preserved (Emission.Sound wanted)) (site.use name) := by
  unfold Site.use
  split
  · exact update_sound _ _
  · exact .refused _

/-- A value that may have been refused requests nothing. -/
theorem ofExcept_sound {α : Type} (found : Except Failure α) :
    Keeps (Preserved (Emission.Sound wanted)) (Emit.ofExcept found) := by
  cases found with
  | ok value => exact .pure value
  | error failure => exact .refused failure

/-- An expression requests nothing. -/
theorem expression_sound (site : Site) (node : Node) :
    Keeps (Preserved (Emission.Sound wanted)) (expression site node) := by
  induction node using Node.expression_induction with
  | literal value => exact ofExcept_sound _
  | literalList items => exact .refused _
  | param name => exact (use_sound site name).bind fun _ => .pure _
  | isSet name =>
    rw [expression]
    split
    · exact .refused_bind _ _
    · exact (use_sound site name).bind fun _ => .pure _
  | unary symbol inner inductionHypothesis =>
    refine inductionHypothesis.bind fun operand => ?_
    by_cases nameless : symbol = ""
    · rw [if_pos nameless]
      exact .refused_bind _ _
    · rw [if_neg nameless]
      split <;> exact .pure _
  | binary symbol left right leftHypothesis rightHypothesis =>
    exact leftHypothesis.bind fun _ => rightHypothesis.bind fun _ => .pure _
  | other node none =>
    rw [expression_other site none]
    exact .refused _

/-- The terms of a packed value request nothing. -/
theorem packedTerms_sound (site : Site) (room : Int) (values : List Node) (widths : List Int) :
    Keeps (Preserved (Emission.Sound wanted)) (packedTerms site room values widths) := by
  induction values generalizing room widths with
  | nil => exact .pure _
  | cons value values inductionHypothesis =>
    cases widths with
    | nil => exact .pure _
    | cons width widths =>
      exact (expression_sound site value).bind fun _ => (ofExcept_sound _).bind fun _ =>
        (inductionHypothesis _ _).bind fun _ => .pure _

/-- A routine that is wanted is requested, unless it has no fixed content. -/
theorem requestRoutine_sound {target : Node} (want : wanted target) (id : Nat) :
    Keeps (Preserved (Emission.Sound wanted)) (Emit.requestRoutine target id) := by
  unfold Emit.requestRoutine
  cases target.isFixed with
  | false => exact .refused_bind _ _
  | true => exact fun before sound => sound.requestRoutine want id

/-- Unordered writes are requested, unless they have no fixed content. -/
theorem requestOrdering_sound {writes : List Node}
    (want : ∀ target ∈ calledAll writes, wanted target) (id : Nat) :
    Keeps (Preserved (Emission.Sound wanted)) (Emit.requestOrdering writes id) := by
  unfold Emit.requestOrdering
  cases areFixed writes with
  | false => exact .refused_bind _ _
  | true => exact fun before sound => sound.requestOrdering want id

/-- The code that performs unordered writes requests them. -/
theorem unorderedText_sound (site : Site) {writes : List Node}
    (want : ∀ target ∈ calledAll writes, wanted target) (order : String) :
    Keeps (Preserved (Emission.Sound wanted)) (unorderedText site writes order) := by
  obtain ⟨id, owner⟩ := site
  cases owner with
  | none => exact .refused_bind _ _
  | some name =>
    refine (requestOrdering_sound want id).bind fun number => (ofExcept_sound _).bind fun width => ?_
    by_cases wide : Permutation.count writes.length - 1 ≥ Bits.capacity width
    · rw [if_pos wide]
      exact .refused_bind _ _
    · rw [if_neg wide]
      exact (update_sound id _).bind fun _ => (use_sound ⟨id, some name⟩ order).bind fun _ =>
        (update_sound id _).bind fun _ => .pure _

/-- Actions request nothing but what they call. -/
theorem action_sound (site : Site) :
    (∀ node, (∀ target ∈ called node, wanted target) →
      Keeps (Preserved (Emission.Sound wanted)) (action site node)) ∧
    (∀ nodes, (∀ target ∈ calledAll nodes, wanted target) →
      Keeps (Preserved (Emission.Sound wanted)) (actions site nodes)) := by
  apply Node.action_induction
  case write =>
    intro value size _
    simp only [action]
    exact (expression_sound site value).bind fun _ => .pure _
  case packed =>
    intro values sizes _
    simp only [action]
    exact (packedTerms_sound site _ values _).bind fun _ => .pure _
  case branch =>
    intro condition taken otherwise takenHypothesis otherwiseHypothesis want
    simp only [called, List.mem_append] at want
    simp only [action]
    refine (expression_sound site condition).bind fun test =>
      (takenHypothesis fun target member => want target (.inl member)).bind fun first => ?_
    split
    · exact .pure _
    · exact (otherwiseHypothesis fun target member => want target (.inr member)).bind
        fun _ => .pure _
  case abort =>
    intro message _
    simp only [action]
    exact (update_sound _ _).bind fun _ => .pure _
  case call =>
    intro routine want
    simp only [action]
    have own : wanted routine := want routine (by simp [called])
    exact (requestRoutine_sound own _).bind fun _ => (update_sound _ _).bind fun _ => .pure _
  case single =>
    intro single order inductionHypothesis want
    simp only [action]
    exact inductionHypothesis (by simpa [called, calledAll] using want)
  case several =>
    intro writes order several want
    rw [action_unordered site several]
    exact unorderedText_sound site (by simpa only [called] using want) _
  case other =>
    intro node none _
    rw [action_other site none]
    exact .refused _
  case nil =>
    intro _
    simp only [actions]
    exact .pure _
  case cons =>
    intro node rest firstHypothesis restHypothesis want
    simp only [calledAll, List.mem_append] at want
    simp only [actions]
    exact (firstHypothesis fun target member => want target (.inl member)).bind fun _ =>
      (restHypothesis fun target member => want target (.inr member)).bind fun _ => .pure _

/-- A new emitter requests nothing. -/
theorem newEmitter_sound (instruction : Option Instruction) (address : Callers) :
    Keeps (Preserved (Emission.Sound wanted)) (Emit.newEmitter instruction address) :=
  fun _ sound => sound.congr rfl rfl

/-- A function is made of what has been written. -/
theorem encodingFunction_sound (comment : Code.Comment) (name code : String)
    (parameters : List Code.Element) (site : Site) :
    Keeps (Preserved (Emission.Sound wanted))
      (encodingFunction comment name code parameters site) := fun _ sound => sound

/-- The cases of unordered writes request what the writes call. -/
theorem orderedCases_sound (site : Site) (index : Nat) {writes : List Node}
    (want : ∀ target ∈ calledAll writes, wanted target) :
    Keeps (Preserved (Emission.Sound wanted)) (orderedCases site index writes) := by
  induction writes generalizing index with
  | nil => exact .pure _
  | cons write rest inductionHypothesis =>
    simp only [calledAll, List.mem_append] at want
    exact ((action_sound site).1 write fun target member => want target (.inl member)).bind
      fun _ => (inductionHypothesis (index + 1) fun target member =>
        want target (.inr member)).bind fun _ => .pure _

/-- The functions of unordered writes request what the writes call. -/
theorem emitOrderings_sound (id : Nat) {entries : List (List Node × List Nat)}
    (want : ∀ entry ∈ entries, ∀ target ∈ calledAll entry.1, wanted target) :
    Keeps (Preserved (Emission.Sound wanted)) (emitOrderings id entries) := by
  induction entries generalizing id with
  | nil => exact .pure _
  | cons entry rest inductionHypothesis =>
    obtain ⟨writes, consumers⟩ := entry
    obtain ⟨own, others⟩ := List.forall_mem_cons.mp want
    refine (newEmitter_sound _ _).bind fun emitter =>
      ((orderedCases_sound _ 0 own).bind fun _ => encodingFunction_sound _ _ _ _ _).bind
        fun function => ?_
    exact (Keeps.changed fun _ sound => sound.mergeAll emitter consumers).bind fun _ =>
      (inductionHypothesis (id + 1) others).bind fun _ => .pure _

/-- The function of a routine requests what the routine calls. -/
theorem emitRoutine_sound (id : Nat) {routine : Node}
    (want : ∀ members, routine.routineActions? = some members →
      ∀ target ∈ calledAll members, wanted target) :
    Keeps (Preserved (Emission.Sound wanted)) (emitRoutine id routine) := by
  have function (emitter : Nat) : Keeps (Preserved (Emission.Sound wanted))
      (routineFunction ⟨emitter, none⟩ routine (toString id)) := by
    cases routine with
    | routine name members =>
      exact ((action_sound _).2 members (want members rfl)).bind fun _ =>
        encodingFunction_sound _ _ _ _ _
    | _ => exact .refused _
  refine (newEmitter_sound _ _).bind fun emitter => (function emitter).bind fun function => ?_
  exact (Keeps.changed fun _ sound => sound.congr rfl rfl).bind fun _ =>
    (Keeps.changed fun before sound => sound.mergeAll emitter _).bind fun _ => .pure _

/-- The functions of routines request what the routines call, as far as all that is wanted
calls only what is wanted. -/
theorem emitRoutinesWithin_sound
    (closed : ∀ routine, wanted routine → ∀ members, routine.routineActions? = some members →
      ∀ target ∈ calledAll members, wanted target) (fuel id : Nat) :
    Keeps (Preserved (Emission.Sound wanted)) (emitRoutinesWithin fuel id) := by
  induction fuel generalizing id with
  | zero => exact .pure _
  | succ fuel inductionHypothesis =>
    refine Keeps.inspect fun emission sound => ?_
    cases requested : emission.routines.key? id with
    | none => exact .pure _
    | some routine =>
      have want : wanted routine := sound.routines routine (Ledger.mem_keys requested)
      exact (emitRoutine_sound id (closed routine want)).bind fun _ =>
        (inductionHypothesis (id + 1)).bind fun _ => .pure _

end Bodies

/-- A session over a set whose ledger holds only routines that the set reaches. -/
def Session.Within (set : InstructionSet) (session : Session) : Prop :=
  session.set = set ∧ session.emission.Sound (Reachable set)

variable {set : InstructionSet}

/-- A step of an emission that requests only what the set reaches. -/
theorem emit_within {α : Type} {step : Emit α}
    (sound : Keeps (Preserved (Emission.Sound (Reachable set))) step) :
    Keeps (Preserved (Session.Within set)) (Run.emit step) :=
  emit_keeps (fun _ _ kept within => ⟨within.1, kept within.2⟩) sound

/-- The functions of instructions request only what the set reaches. -/
theorem emitInstructions_within {instructions : List Instruction}
    (listed : instructions ⊆ set.instructions) :
    Keeps (Preserved (Session.Within set)) (emitInstructions instructions) := by
  induction instructions with
  | nil => exact .pure _
  | cons instruction rest inductionHypothesis =>
    obtain ⟨own, others⟩ := List.cons_subset.mp listed
    refine (emit_within (newEmitter_sound _ _)).bind fun id => ?_
    refine (emit_within (((action_sound _).2 instruction.encoding fun target member =>
      .encoding own member).bind fun _ => encodingFunction_sound _ _ _ _ _)).bind fun function => ?_
    exact (Keeps.changed fun _ within => within).bind fun _ =>
      (inductionHypothesis others).bind fun _ => .pure _

/-- A phase requests only what the set reaches. -/
theorem produce_within (phase : Phase) :
    Keeps (Preserved (Session.Within set)) (produce phase) := by
  cases kind : phase.emits with
  | false =>
    exact produce_keeps_describing kind (fun _ _ within => within) fun _ _ _ within => within
  | true =>
    cases phase with
    | instructionFunctions =>
      refine Keeps.inspect fun session within => ?_
      rw [within.1]
      exact emitInstructions_within (List.Subset.refl _)
    | orderingFunctions =>
      refine emit_within (Keeps.inspect fun emission sound => ?_)
      exact emitOrderings_sound 0 fun entry member =>
        sound.orderings entry.1 (List.mem_map_of_mem member)
    | routineFunctions =>
      refine emit_within (Keeps.inspect fun emission sound => ?_)
      exact emitRoutinesWithin_sound
        (fun routine reached members actions target member => .routine reached actions member) _ _
    | _ => cases kind

/-- A phase that is run requests only what the set reaches. -/
theorem runOne_within (phase : Phase) : Keeps (Preserved (Session.Within set)) (runOne phase) := by
  have told (line : String) : Keeps (Preserved (Session.Within set)) (Run.tell line) :=
    Keeps.changed fun session within => by
      rw [tell_frame]
      exact within
  have printed (elements : List Code.Element) (implementing : Bool) :
      Keeps (Preserved (Session.Within set)) (blockText elements implementing) :=
    Keeps.read.bind fun _ => ofExcept_keeps _
  exact Keeps.read.bind fun session => (ofExcept_keeps _).bind fun _ => (told _).bind fun _ =>
    (produce_within phase).bind fun elements => (Keeps.changed fun _ within => within).bind fun _ =>
      (printed elements _).bind fun block => (Keeps.changed fun _ within => within).bind fun _ =>
        .pure _

/-- A call requests only what the set reaches. -/
theorem Call.step_within (call : Call) : Keeps (Preserved (Session.Within set)) call.step := by
  cases call with
  | phase name =>
    refine Keeps.bind ?_ fun _ => .pure _
    unfold runNamed
    cases Phase.ofName? name with
    | none => exact .refused _
    | some phase => exact runOne_within phase
  | budget words basic =>
    exact (ofExcept_keeps _).bind fun limit => Keeps.changed fun _ within => within

/-- Whatever has been asked, a session over a set holds only routines that the set reaches. -/
theorem Session.Within.performAll {session : Session} (within : session.Within set)
    (calls : List Call) : (session.performAll calls).Within set := by
  induction calls generalizing session with
  | nil => exact within
  | cons call rest inductionHypothesis =>
    refine @inductionHypothesis (session.perform call) ?_
    unfold Session.perform
    cases reached : call.step session with
    | ok _ after => exact call.step_within.ok reached within
    | error failure after => exact call.step_within.error reached within

/-- A session before its first call. -/
theorem start_within (set : InstructionSet) (settings : Settings) :
    (Session.start set settings).Within set := by
  rw [Session.start, tell_frame]
  exact ⟨rfl, Emission.empty_sound _⟩

end Generator

end EncoderTables
