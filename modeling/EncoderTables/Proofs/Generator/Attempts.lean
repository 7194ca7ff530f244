import EncoderTables.Proofs.Generator.Functions
import EncoderTables.Proofs.Generator.Texts
import EncoderTables.Proofs.Results
import EncoderTables.Proofs.Simulation

/-!
# Attempts to emit functions

Whether a body can be written depends on its actions and its owner alone. So an attempt to
emit functions succeeds when the body of each of them can be written, and one that has failed
for a body will fail for it again. What a failed attempt leaves behind extends what was
there: emitters and requests stay in their places.
-/

namespace EncoderTables.Generator

/-- Whether a value has been found, or why it has not. -/
def outcome {α : Type} (found : Except Failure α) : Except Failure Unit := found.map fun _ => ()

/-- Values alone are found in the same cases. -/
theorem outcome_pure {α β : Type} (value : α) (other : β) :
    outcome (pure value) = outcome (pure other) := rfl

/-- Nothing follows a refusal. -/
theorem outcome_error_bind {α β γ δ : Type} (failure : Failure) (next : α → Except Failure β)
    (further : γ → Except Failure δ) :
    outcome (.error failure >>= next) = outcome (.error failure >>= further) := rfl

/-- Values that are found in the same cases, followed by such that are. -/
theorem outcome_bind {α β : Type} {first other : Except Failure α}
    {next further : α → Except Failure β} (same : outcome first = outcome other)
    (each : ∀ value found, outcome (next value) = outcome (further found)) :
    outcome (first >>= next) = outcome (other >>= further) := by
  cases first with
  | error failure =>
    cases other with
    | error cause => exact same
    | ok value => cases same
  | ok value =>
    cases other with
    | error cause => cases same
    | ok found => exact each value found

/-- Whether the code of actions is found does not depend on the numbers of shared functions. -/
theorem actionCode_outcome (numbers other : Numbers) (owner : Option String) :
    (∀ node, outcome (actionCode numbers owner node) = outcome (actionCode other owner node)) ∧
    (∀ nodes, outcome (codeAll numbers owner nodes) = outcome (codeAll other owner nodes)) := by
  apply Node.action_induction
  case write | packed | abort =>
    intros
    simp only [actionCode]
  case branch =>
    intro condition taken otherwise takenHypothesis otherwiseHypothesis
    simp only [actionCode]
    refine outcome_bind rfl fun _ _ => outcome_bind takenHypothesis fun _ _ => ?_
    cases otherwise with
    | nil => exact outcome_pure ..
    | cons node rest => exact outcome_bind otherwiseHypothesis fun _ _ => outcome_pure ..
  case call =>
    intro routine
    simp only [actionCode, Numbers.ofRoutine]
    refine outcome_bind ?_ fun _ _ => outcome_pure ..
    split
    · rfl
    · exact outcome_pure ..
  case single =>
    intro single order inductionHypothesis
    simpa only [actionCode] using inductionHypothesis
  case several =>
    intro writes order several
    simp only [actionCode_unordered _ _ several, unorderedCode, Numbers.ofOrdering]
    by_cases unowned : owner.isNone = true
    · rw [if_pos unowned, if_pos unowned]
    · rw [if_neg unowned, if_neg unowned]
      refine outcome_bind ?_ fun _ _ => ?_
      · split
        · rfl
        · exact outcome_pure ..
      · cases Parameters.fieldWidth order.plain false with
        | error failure => exact outcome_error_bind ..
        | ok width =>
          show outcome (if _ then _ else _) = outcome (if _ then _ else _)
          split
          · rfl
          · exact outcome_bind rfl fun _ _ => outcome_pure ..
  case other =>
    intro node none
    rw [actionCode_other _ _ none, actionCode_other _ _ none]
  case nil => simp only [codeAll]
  case cons =>
    intro node rest firstHypothesis restHypothesis
    simp only [codeAll]
    exact outcome_bind firstHypothesis fun _ _ =>
      outcome_bind restHypothesis fun _ _ => outcome_pure ..

/-- Actions whose code is found in the body of an owner. -/
def Writable (owner : Option String) (nodes : List Node) : Prop :=
  ∃ numbers code, codeAll numbers owner nodes = .ok code

/-- Actions that can be written have code under all numbers. -/
theorem Writable.code {owner : Option String} {nodes : List Node}
    (writable : Writable owner nodes) (numbers : Numbers) :
    ∃ code, codeAll numbers owner nodes = .ok code := by
  obtain ⟨other, found, written⟩ := writable
  have same := (actionCode_outcome numbers other owner).2 nodes
  rw [written] at same
  cases reached : codeAll numbers owner nodes with
  | ok code => exact ⟨code, rfl⟩
  | error failure =>
    rw [reached] at same
    cases same

/-- An action can be written with others when it can be written and they can. -/
theorem writable_cons_iff (owner : Option String) (node : Node) (rest : List Node) :
    Writable owner (node :: rest) ↔
      (∃ numbers code, actionCode numbers owner node = .ok code) ∧ Writable owner rest := by
  constructor
  · rintro ⟨numbers, code, found⟩
    simp only [codeAll, Results.bind_ok_iff, Results.pure_ok_iff] at found
    obtain ⟨first, own, others, remaining, -⟩ := found
    exact ⟨⟨numbers, first, own⟩, numbers, others, remaining⟩
  · rintro ⟨⟨numbers, first, own⟩, remaining⟩
    obtain ⟨others, found⟩ := remaining.code numbers
    exact ⟨numbers, first ++ others, by simp [codeAll, own, found]⟩

namespace Emission

/-- The numbers that the ledgers hold. -/
def numbers (emission : Emission) : Numbers where
  routine target := (emission.routines.id? target).getD 0
  ordering writes := (emission.orderings.id? writes).getD 0

/-- The ledgers hold their own numbers. -/
theorem numbers_numbered (emission : Emission) : emission.Numbered emission.numbers :=
  ⟨fun _ _ found => by simp [numbers, found], fun _ _ found => by simp [numbers, found]⟩

end Emission

/-- A body that has been written can be written. -/
theorem writable_of_actions {site : Site} {nodes : List Node} {before after : Emission}
    {code : String} (written : actions site nodes before = .ok code after) :
    Writable site.instruction nodes := by
  have found := (action_finds site).2 nodes before
  rw [written] at found
  exact ⟨after.numbers, code, found.2 _ after.numbers_numbered⟩

/-- A body is refused because it cannot be written. -/
theorem not_writable_of_actions {site : Site} {nodes : List Node} {before after : Emission}
    {failure : Failure} (refused : actions site nodes before = .error failure after) :
    ¬ Writable site.instruction nodes := by
  intro writable
  have found := (action_finds site).2 nodes before
  rw [refused] at found
  obtain ⟨code, written⟩ := writable.code after.numbers
  have refusal := (found.2 _ after.numbers_numbered).symm.trans written
  cases refusal

open Steps

instance (owner : Option String) : Std.Refl (Emission.Extends owner) := ⟨.refl owner⟩

instance (owner : Option String) : IsTrans Emission (Emission.Extends owner) :=
  ⟨fun _ _ _ head tail => head.trans tail⟩

/-- A step whose result the numbers determine keeps what there is. -/
theorem Finds.keeps {α : Type} {owner : Option String} {step : Emit α}
    {code : Numbers → Except Failure α} (finds : Finds owner step code) :
    Keeps (Emission.Extends owner) step := by
  intro before
  have found := finds before
  cases reached : step before with
  | ok value after =>
    rw [reached] at found
    exact found.1
  | error failure after =>
    rw [reached] at found
    exact found.1

/-- A new emitter stands behind all others. -/
theorem newEmitter_keeps (owner : Option String) (instruction : Option Instruction)
    (address : Callers) : Keeps (Emission.Extends owner) (Emit.newEmitter instruction address) :=
  fun before => ⟨by simp [Emission.places], .refl _, .refl _, fun _ => ⟨rfl, rfl⟩⟩

/-- A function is made of the code of its body and of what its emitter knows. -/
theorem encodingFunction_keeps (owner : Option String) (comment : Code.Comment)
    (name code : String) (parameters : List Code.Element) (site : Site) :
    Keeps (Emission.Extends owner) (encodingFunction comment name code parameters site) :=
  fun before => .refl owner before

/-- What is merged into several emitters leaves all of them at their places. -/
theorem mergeAll_reshaped (source : Nat) (targets : List Nat) (before : Emission) :
    before.Reshaped
      (targets.foldl (fun emission target => emission.mergeFrom source target) before) := by
  induction targets generalizing before with
  | nil => exact ⟨rfl, rfl⟩
  | cons target rest inductionHypothesis =>
    have first := Emission.mergeFrom_reshaped before source target
    obtain ⟨frame, places⟩ := inductionHypothesis (before.mergeFrom source target)
    refine ⟨?_, places.trans first.places⟩
    rw [List.foldl_cons, frame, first.frame]

/-- What is merged into several emitters extends an emission. -/
theorem mergeAll_extends (owner : Option String) (source : Nat) (targets : List Nat)
    (before : Emission) :
    before.Extends owner
      (targets.foldl (fun emission target => emission.mergeFrom source target) before) :=
  (mergeAll_reshaped source targets before).extends owner

/-- The function of unordered writes keeps what there is. -/
theorem orderingFunction_keeps (emitter : Nat) (writes : List Node) (id table : String) :
    Keeps (Emission.Extends none) (orderingFunction ⟨emitter, none⟩ writes id table) :=
  (orderedCases_finds emitter 0 writes).keeps.bind fun _ =>
    encodingFunction_keeps _ _ _ _ _ _

/-- The function of a routine keeps what there is. -/
theorem routineFunction_keeps (emitter : Nat) (routine : Node) (id : String) :
    Keeps (Emission.Extends none) (routineFunction ⟨emitter, none⟩ routine id) := by
  cases routine with
  | routine name members =>
    exact ((action_finds ⟨emitter, none⟩).2 members).keeps.bind fun _ =>
      encodingFunction_keeps _ _ _ _ _ _
  | _ => exact .refused _

/-- The functions of unordered writes keep what there is. -/
theorem emitOrderings_keeps (id : Nat) (entries : List (List Node × List Nat)) :
    Keeps (Emission.Extends none) (emitOrderings id entries) := by
  induction entries generalizing id with
  | nil => exact .pure _
  | cons entry rest inductionHypothesis =>
    obtain ⟨writes, consumers⟩ := entry
    refine (newEmitter_keeps _ _ _).bind fun emitter =>
      (orderingFunction_keeps emitter writes _ _).bind fun function => ?_
    exact (Keeps.changed fun before => mergeAll_extends none emitter consumers before).bind
      fun _ => (inductionHypothesis (id + 1)).bind fun _ => .pure _

/-- The function of a routine that is emitted keeps what there is. -/
theorem emitRoutine_keeps (id : Nat) (routine : Node) :
    Keeps (Emission.Extends none) (emitRoutine id routine) := by
  refine (newEmitter_keeps _ _ _).bind fun emitter =>
    (routineFunction_keeps emitter routine _).bind fun function => ?_
  refine (Keeps.changed fun before => ?_).bind fun _ =>
    (Keeps.changed fun before => ?_).bind fun _ => .pure _
  · exact ⟨List.prefix_rfl, .refl _, .refl _, fun _ => ⟨rfl, rfl⟩⟩
  · exact mergeAll_extends none emitter _ before

/-- The functions of routines keep what there is. -/
theorem emitRoutinesWithin_keeps (fuel id : Nat) :
    Keeps (Emission.Extends none) (emitRoutinesWithin fuel id) := by
  induction fuel generalizing id with
  | zero => exact .pure _
  | succ fuel inductionHypothesis =>
    refine Keeps.read.bind fun emission => ?_
    cases emission.routines.key? id with
    | none => exact .pure _
    | some routine =>
      exact (emitRoutine_keeps id routine).bind fun _ =>
        (inductionHypothesis (id + 1)).bind fun _ => .pure _

/-- An action that has been written alone can be written. -/
theorem writable_of_action {site : Site} {node : Node} {before after : Emission} {code : String}
    (written : action site node before = .ok code after) : Writable site.instruction [node] := by
  have found := (action_finds site).1 node before
  rw [written] at found
  have own := found.2 _ after.numbers_numbered
  exact ⟨after.numbers, code ++ "", by simp [codeAll, own]⟩

/-- An action is refused because it cannot be written. -/
theorem not_writable_of_action {site : Site} {node : Node} {before after : Emission}
    {failure : Failure} (refused : action site node before = .error failure after) :
    ¬ Writable site.instruction [node] := by
  rintro writable
  have found := (action_finds site).1 node before
  rw [refused] at found
  obtain ⟨code, written⟩ := writable.code after.numbers
  have refusal := found.2 _ after.numbers_numbered
  simp [codeAll, refusal] at written

/-- No actions can be written. -/
theorem writable_nil (owner : Option String) : Writable owner [] :=
  ⟨⟨fun _ => 0, fun _ => 0⟩, "", by simp [codeAll]⟩

/-- Actions can be written when each of them can. -/
theorem writable_iff (owner : Option String) (nodes : List Node) :
    Writable owner nodes ↔ ∀ node ∈ nodes, Writable owner [node] := by
  induction nodes with
  | nil => simp [writable_nil]
  | cons node rest inductionHypothesis =>
    rw [List.forall_mem_cons, writable_cons_iff, writable_cons_iff, inductionHypothesis]
    simp [writable_nil]

/-- Cases that have been written can be written. -/
theorem writable_of_orderedCases {emitter index : Nat} {writes : List Node}
    {before after : Emission} {code : String}
    (written : orderedCases ⟨emitter, none⟩ index writes before = .ok code after) :
    ∀ write ∈ writes, Writable none [write] := by
  induction writes generalizing index before code with
  | nil => simp
  | cons write rest inductionHypothesis =>
    simp only [orderedCases, bind_ok_iff, pure_ok_iff] at written
    obtain ⟨first, middle, own, others, last, remaining, -, rfl⟩ := written
    exact List.forall_mem_cons.mpr ⟨writable_of_action own, inductionHypothesis remaining⟩

/-- Cases are refused because one of them cannot be written. -/
theorem not_writable_of_orderedCases {emitter index : Nat} {writes : List Node}
    {before after : Emission} {failure : Failure}
    (refused : orderedCases ⟨emitter, none⟩ index writes before = .error failure after) :
    ∃ write ∈ writes, ¬ Writable none [write] := by
  induction writes generalizing index before with
  | nil => simp [orderedCases] at refused
  | cons write rest inductionHypothesis =>
    simp only [orderedCases, bind_error_iff, pure_not_error, and_false, exists_false,
      or_false] at refused
    rcases refused with own | ⟨first, middle, -, remaining⟩
    · exact ⟨write, List.mem_cons_self, not_writable_of_action own⟩
    · obtain ⟨other, member, unwritable⟩ := inductionHypothesis remaining
      exact ⟨other, List.mem_cons_of_mem _ member, unwritable⟩

/-- Functions of unordered writes have been emitted, so each of the writes can be written. -/
theorem writable_of_emitOrderings {id : Nat} {entries : List (List Node × List Nat)}
    {before after : Emission} {functions : List Code.Element}
    (made : emitOrderings id entries before = .ok functions after) :
    ∀ entry ∈ entries, Writable none entry.1 := by
  induction entries generalizing id before functions with
  | nil => simp
  | cons entry rest inductionHypothesis =>
    obtain ⟨writes, consumers⟩ := entry
    obtain ⟨function, written, others, own, further, -⟩ := emitOrderings_cons_ok_iff.mp made
    simp only [orderingFunction, bind_ok_iff] at own
    obtain ⟨_, _, cases, -⟩ := own
    refine List.forall_mem_cons.mpr ⟨?_, inductionHypothesis further⟩
    exact (writable_iff ..).mpr (writable_of_orderedCases cases)

/-- The functions of unordered writes are refused because some of the writes cannot be
written. -/
theorem not_writable_of_emitOrderings {id : Nat} {entries : List (List Node × List Nat)}
    {before after : Emission} {failure : Failure}
    (refused : emitOrderings id entries before = .error failure after) :
    ∃ entry ∈ entries, ¬ Writable none entry.1 := by
  induction entries generalizing id before with
  | nil => simp [emitOrderings] at refused
  | cons entry rest inductionHypothesis =>
    obtain ⟨writes, consumers⟩ := entry
    simp only [emitOrderings, bind_error_iff, pure_not_error, modify_not_error, and_false,
      exists_false, or_false, false_or] at refused
    rcases refused with impossible | ⟨_, _, -, unwritten | ⟨_, _, -, _, _, -, further⟩⟩
    · cases impossible
    · refine ⟨_, List.mem_cons_self, fun writable => ?_⟩
      simp only [orderingFunction, bind_error_iff] at unwritten
      rcases unwritten with cases | ⟨_, _, -, impossible⟩
      · obtain ⟨write, member, unwritable⟩ := not_writable_of_orderedCases cases
        exact unwritable ((writable_iff ..).mp writable write member)
      · cases impossible
    · obtain ⟨other, member, unwritable⟩ := inductionHypothesis further
      exact ⟨other, List.mem_cons_of_mem _ member, unwritable⟩

/-- A routine whose function can be emitted. -/
def Translates (routine : Node) : Prop :=
  ∃ members, routine.routineActions? = some members ∧ Writable none members

/-- The function of a routine has been written, so it can be. -/
theorem translates_of_routineFunction {emitter : Nat} {routine : Node} {id : String}
    {before after : Emission} {function : Code.Element}
    (made : routineFunction ⟨emitter, none⟩ routine id before = .ok function after) :
    Translates routine := by
  cases routine with
  | routine name members =>
    simp only [routineFunction, bind_ok_iff] at made
    obtain ⟨_, _, written, -⟩ := made
    exact ⟨members, rfl, writable_of_actions written⟩
  | _ => simp [routineFunction] at made

/-- The function of a routine is refused because it cannot be written. -/
theorem not_translates_of_routineFunction {emitter : Nat} {routine : Node} {id : String}
    {before after : Emission} {failure : Failure}
    (refused : routineFunction ⟨emitter, none⟩ routine id before = .error failure after) :
    ¬ Translates routine := by
  rintro ⟨members, actions, writable⟩
  cases routine with
  | routine name own =>
    obtain rfl := Option.some.inj actions
    simp only [routineFunction, bind_error_iff] at refused
    rcases refused with unwritten | ⟨_, _, -, impossible⟩
    · exact not_writable_of_actions unwritten writable
    · cases impossible
  | _ => cases actions

/-- The functions of routines have been emitted from a number on, so each of these routines
translates, as far as the fuel lasts. -/
theorem translates_of_emitRoutines {fuel id : Nat} {before after : Emission}
    {functions : List Code.Element}
    (made : emitRoutinesWithin fuel id before = .ok functions after) {routine : Nat} {key : Node}
    (inside : id ≤ routine) (lasting : routine < id + fuel)
    (requested : before.routines.key? routine = some key) : Translates key := by
  induction fuel generalizing id before functions with
  | zero => omega
  | succ fuel inductionHypothesis =>
    rcases emitRoutinesWithin_succ_ok_iff.mp made with
      ⟨free, -, -⟩ | ⟨first, function, middle, others, here, own, remaining, -⟩
    · -- The ledger has no gaps, so nothing is requested behind a free place.
      have short : before.routines.entries.length ≤ id := by simpa [Ledger.key?] using free
      have beyond : before.routines.key? routine = none := by
        simpa [Ledger.key?] using Nat.le_trans short inside
      rw [requested] at beyond
      cases beyond
    · rcases Nat.eq_or_lt_of_le inside with rfl | later
      · obtain rfl := Option.some.inj (here.symm.trans requested)
        obtain ⟨_, _, written, -⟩ := emitRoutine_ok_iff.mp own
        exact translates_of_routineFunction written
      · have grown := ((emitRoutine_keeps id first).ok own).routines
        exact inductionHypothesis remaining later (by omega) (grown.key? requested)

/-- The functions of routines are refused because one that has been requested does not
translate. -/
theorem not_translates_of_emitRoutines {fuel id : Nat} {before after : Emission}
    {failure : Failure} (refused : emitRoutinesWithin fuel id before = .error failure after) :
    ∃ routine key, after.routines.key? routine = some key ∧ ¬ Translates key := by
  induction fuel generalizing id before with
  | zero => simp [emitRoutinesWithin] at refused
  | succ fuel inductionHypothesis =>
    have kept := (emitRoutinesWithin_keeps (fuel + 1) id).error refused
    simp only [emitRoutinesWithin, bind_error_iff, get_not_error, get_ok_iff, false_or] at refused
    obtain ⟨_, _, ⟨rfl, rfl⟩, rest⟩ := refused
    cases here : before.routines.key? id with
    | none => simp [here] at rest
    | some first =>
      simp only [here, bind_error_iff, pure_not_error, and_false, exists_false,
        or_false] at rest
      rcases rest with own | ⟨_, _, -, remaining⟩
      · refine ⟨id, first, kept.routines.key? here, ?_⟩
        simp only [emitRoutine, bind_error_iff, pure_not_error, modify_not_error, and_false,
          exists_false, or_false] at own
        rcases own with impossible | ⟨_, _, -, unwritten⟩
        · cases impossible
        · exact not_translates_of_routineFunction unwritten
      · exact inductionHypothesis remaining

end EncoderTables.Generator
