import Mathlib.Data.List.Forall2
import EncoderTables.Proofs.Encoding.Unnamed
import EncoderTables.Proofs.Generator.Attempts

/-!
# Emission without the names of routines

An emission never looks at the names of routines: without them it goes the same way. Each
step that changes an emission commutes with taking the names away, and so does each body and
each function, of which only the comment of a routine's function differs.
-/

namespace EncoderTables

namespace Ledger

variable {κ γ : Type}

/-- A ledger with other keys in the place of its own. -/
def mapKeys (change : κ → κ) (ledger : Ledger κ γ) : Ledger κ γ :=
  ⟨ledger.entries.map fun entry => (change entry.1, entry.2)⟩

/-- The key with an id is changed as all others. -/
theorem key?_mapKeys (change : κ → κ) (ledger : Ledger κ γ) (id : Nat) :
    (ledger.mapKeys change).key? id = (ledger.key? id).map change := by
  simp [key?, mapKeys, Function.comp_def]

variable [BEq κ]

/-- A request goes the same way when all keys are changed and no two of them are confused. -/
theorem request_mapKeys {change : κ → κ}
    (faithful : ∀ left right, (change left == change right) = (left == right))
    (ledger : Ledger κ γ) (key : κ) (consumer : γ) :
    (ledger.mapKeys change).request (change key) consumer =
      ((ledger.request key consumer).1, (ledger.request key consumer).2.mapKeys change) := by
  have found (entries : List (κ × List γ)) :
      (entries.map fun entry => (change entry.1, entry.2)).findIdx? (·.1 == change key) =
        entries.findIdx? (·.1 == key) := by
    rw [List.findIdx?_map]
    exact congrArg (entries.findIdx? ·) (funext fun entry => faithful entry.1 key)
  have recorded (entries : List (κ × List γ)) :
      record (change key) consumer (entries.map fun entry => (change entry.1, entry.2)) =
        (record key consumer entries).map fun entry => (change entry.1, entry.2) := by
    induction entries with
    | nil => rfl
    | cons entry rest inductionHypothesis =>
      simp only [List.map_cons, record, faithful, inductionHypothesis]
      split <;> rfl
  simp only [request, mapKeys, id?, size, found, recorded, List.length_map]

end Ledger

/-- An instruction in whose encoding no routine has a name. -/
def Instruction.unnamed (instruction : Instruction) : Instruction :=
  { instruction with encoding := Node.unnamedAll instruction.encoding }

namespace Generator

open Node Steps

/-- What is known about a body, without the names of routines. -/
def Emitter.unnamed (emitter : Emitter) : Emitter :=
  { emitter with instruction := emitter.instruction.map Instruction.unnamed }

namespace Emission

/-- An emission in which no routine has a name. -/
def unnamed (emission : Emission) : Emission where
  emitters := emission.emitters.map Emitter.unnamed
  orderings := emission.orderings.mapKeys unnamedAll
  routines := emission.routines.mapKeys Node.unnamed
  permutations := emission.permutations
  emitted := emission.emitted

/-- An emitter is changed without names. -/
theorem unnamed_update (emission : Emission) (id : Nat) {change : Emitter → Emitter}
    (commutes : ∀ emitter, (change emitter).unnamed = change emitter.unnamed) :
    (emission.update id change).unnamed = emission.unnamed.update id change := by
  have emitters : (emission.emitters.modify id change).map Emitter.unnamed =
      (emission.emitters.map Emitter.unnamed).modify id change := by
    apply List.ext_getElem?
    intro position
    rw [List.getElem?_map, List.getElem?_modify, List.getElem?_modify, List.getElem?_map]
    split <;> simp [Function.comp_def, commutes]
  simp [unnamed, update, emitters]

/-- The callers of an emitter do not depend on names. -/
@[simp]
theorem callers_unnamed (emission : Emission) (address : Callers) :
    emission.unnamed.callers address = emission.callers address := by
  cases address <;> simp [callers, unnamed, Ledger.mapKeys, Function.comp_def]

/-- What is new is merged without names. -/
theorem unnamed_mergeWithin (fuel : Nat) (parameters : List String)
    (domains : List (String × Domain)) (emission : Emission) (id : Nat) :
    (mergeWithin fuel parameters domains emission id).unnamed =
      mergeWithin fuel parameters domains emission.unnamed id := by
  induction fuel generalizing parameters domains emission id with
  | zero => rfl
  | succ fuel inductionHypothesis =>
    have each (names : List String) (entries : List (String × Domain)) (targets : List Nat)
        (start : Emission) :
        (targets.foldl (mergeWithin fuel names entries) start).unnamed =
          targets.foldl (mergeWithin fuel names entries) start.unnamed := by
      induction targets generalizing start with
      | nil => rfl
      | cons target rest induction =>
        rw [List.foldl_cons, induction, inductionHypothesis, List.foldl_cons]
    have emitter : emission.unnamed.emitters[id]? = emission.emitters[id]?.map Emitter.unnamed := by
      simp [unnamed]
    unfold mergeWithin
    rw [emitter]
    cases emission.emitters[id]? with
    | none => rfl
    | some emitter =>
      simp only [Option.map_some, Emitter.unnamed, apply_ite Emission.unnamed, each]
      rw [unnamed_update emission id (by exact fun _ => rfl), ← callers_unnamed,
        unnamed_update emission id (by exact fun _ => rfl)]

/-- What an emitter knows is merged without names. -/
theorem unnamed_mergeFrom (emission : Emission) (source target : Nat) :
    (emission.mergeFrom source target).unnamed = emission.unnamed.mergeFrom source target := by
  have emitter : emission.unnamed.emitters[source]? =
      emission.emitters[source]?.map Emitter.unnamed := by
    simp [unnamed]
  unfold mergeFrom
  rw [emitter]
  cases emission.emitters[source]? with
  | none => rfl
  | some emitter =>
    simp only [Option.map_some, merge, unnamed_mergeWithin]
    simp [unnamed, Emitter.unnamed]

/-- What an emitter knows is merged into several others without names. -/
theorem unnamed_mergeAll (emission : Emission) (source : Nat) (targets : List Nat) :
    (targets.foldl (fun emission target => emission.mergeFrom source target) emission).unnamed =
      targets.foldl (fun emission target => emission.mergeFrom source target)
        emission.unnamed := by
  induction targets generalizing emission with
  | nil => rfl
  | cons target rest inductionHypothesis =>
    rw [List.foldl_cons, inductionHypothesis, unnamed_mergeFrom, List.foldl_cons]

/-- Unordered writes are requested without names. -/
theorem requestOrdering_unnamed (emission : Emission) (writes : List Node) (id : Nat) :
    emission.unnamed.requestOrdering (unnamedAll writes) id =
      ((emission.requestOrdering writes id).1, (emission.requestOrdering writes id).2.unnamed) := by
  have asked := emission.orderings.request_mapKeys beq_unnamedAll writes id
  simp only [requestOrdering, unnamed, asked, length_unnamedAll]

/-- A routine is requested without its name. -/
theorem requestRoutine_unnamed (emission : Emission) (routine : Node) (id : Nat) :
    emission.unnamed.requestRoutine routine.unnamed id =
      ((emission.requestRoutine routine id).1, (emission.requestRoutine routine id).2.unnamed) := by
  have asked := emission.routines.request_mapKeys beq_unnamed routine id
  have number : emission.unnamed.routineId routine.unnamed id = emission.routineId routine id := by
    unfold routineId
    exact (congrArg Prod.fst asked).trans rfl
  have ledger : emission.unnamed.askRoutine routine.unnamed id =
      (emission.askRoutine routine id).unnamed := by
    simp only [askRoutine, unnamed]
    exact congrArg (Emission.mk _ _ · _ _) (congrArg Prod.snd asked)
  have emitted : emission.unnamed.emitted = emission.emitted := rfl
  refine Prod.ext ?_ ?_
  · rw [requestRoutine_fst, requestRoutine_fst, number]
  · rw [requestRoutine_snd, requestRoutine_snd, number, ledger, emitted]
    cases emission.emitted.lookup (emission.routineId routine id) with
    | none => rfl
    | some source => exact (unnamed_mergeFrom ..).symm

end Emission

/-- Two emissions of which the second is the first without the names of routines. -/
def Unnamed (emission other : Emission) : Prop := other = emission.unnamed

/-- What is read of an emission may lack names on the other side. -/
theorem read_unnamed {α β : Type} {same : α → β → Prop} {next : Emission → Emit α}
    {further : Emission → Emit β}
    (each : ∀ emission, Simulates Unnamed same (next emission) (further emission.unnamed)) :
    Simulates Unnamed same (get >>= next) (get >>= further) := by
  apply Simulates.read.bind
  rintro before _ rfl
  exact each before

/-- A change that commutes with taking names away goes the same way without them. -/
theorem changed_unnamed {change revision : Emission → Emission}
    (commutes : ∀ emission, (change emission).unnamed = revision emission.unnamed) :
    Simulates Unnamed (fun _ _ => True) (modify change : Emit PUnit) (modify revision) := by
  apply Simulates.changed
  rintro before _ rfl
  exact (commutes before).symm

/-- A change of an emitter goes the same way without names. -/
theorem update_unnamed (id : Nat) {change : Emitter → Emitter}
    (commutes : ∀ emitter, (change emitter).unnamed = change emitter.unnamed) :
    Simulates Unnamed (fun _ _ => True) (Emit.update id change) (Emit.update id change) :=
  changed_unnamed fun emission => emission.unnamed_update id commutes

/-- The use of a parameter goes the same way without names. -/
theorem use_unnamed (site : Site) (name : String) :
    Simulates Unnamed (fun _ _ => True) (site.use name) (site.use name) := by
  unfold Site.use
  split
  · refine update_unnamed site.emitter fun emitter => ?_
    unfold Emitter.use
    split
    · next known => rw [if_pos (by exact known)]
    · next new => rw [if_neg (by exact new)]; rfl
  · exact .refused _

/-- A body that can fail is marked without names. -/
theorem markFailing_unnamed (site : Site) :
    Simulates Unnamed (fun _ _ => True) site.markFailing site.markFailing :=
  update_unnamed site.emitter fun _ => rfl

/-- A value that may have been refused does not depend on names. -/
theorem ofExcept_unnamed {α : Type} (found : Except Failure α) :
    Simulates Unnamed Eq (Emit.ofExcept found) (Emit.ofExcept found) := by
  cases found with
  | ok value => exact .pure rfl
  | error failure => exact .refused failure

/-- Expressions are expressions without names. -/
theorem isExpression_unnamed (node : Node) : node.unnamed.isExpression = node.isExpression := by
  cases node <;> rfl

/-- Actions are actions without names. -/
theorem isAction_unnamed (node : Node) : node.unnamed.isAction = node.isAction := by
  cases node <;> rfl

/-- An expression is written the same way without names. -/
theorem expression_unnamed (site : Site) (node : Node) :
    Simulates Unnamed Eq (expression site node) (expression site node.unnamed) := by
  induction node using Node.expression_induction with
  | literal value => exact ofExcept_unnamed _
  | literalList items => exact .refused _
  | param name => exact (use_unnamed site name).bind fun _ _ _ => .pure rfl
  | isSet name =>
    rw [Node.unnamed, expression]
    split
    · exact .refused_bind _ _ _
    · exact (use_unnamed site name).bind fun _ _ _ => .pure rfl
  | unary symbol inner inductionHypothesis =>
    refine inductionHypothesis.follow fun operand => ?_
    by_cases nameless : symbol = ""
    · rw [if_pos nameless]
      exact .refused_bind _ _ _
    · rw [if_neg nameless]
      split <;> exact .pure rfl
  | binary symbol left right leftHypothesis rightHypothesis =>
    refine leftHypothesis.follow fun first => ?_
    refine rightHypothesis.follow fun second => ?_
    exact .pure rfl
  | other node none =>
    have noneToo : node.unnamed.isExpression = false := by rwa [isExpression_unnamed]
    rw [expression_other site none, expression_other site noneToo, shown_unnamed]
    exact .refused _

/-- The terms of a packed value are written the same way without names. -/
theorem packedTerms_unnamed (site : Site) (room : Int) (values : List Node)
    (widths : List Int) :
    Simulates Unnamed Eq (packedTerms site room values widths)
      (packedTerms site room (unnamedAll values) widths) := by
  induction values generalizing room widths with
  | nil => exact .pure rfl
  | cons value values inductionHypothesis =>
    cases widths with
    | nil => exact .pure rfl
    | cons width widths =>
      refine (expression_unnamed site value).follow fun code => ?_
      refine (ofExcept_unnamed _).follow fun mask => ?_
      refine (inductionHypothesis _ _).follow fun terms => ?_
      exact .pure rfl

/-- The request of unordered writes goes the same way without names. -/
theorem requestOrdering_simulates (writes : List Node) (id : Nat) :
    Simulates Unnamed Eq (Emit.requestOrdering writes id)
      (Emit.requestOrdering (unnamedAll writes) id) := by
  unfold Emit.requestOrdering
  rw [areFixed_unnamedAll]
  cases areFixed writes with
  | false => exact .refused_bind _ _ _
  | true =>
    refine .modifyGet ?_
    rintro before _ rfl
    rw [before.requestOrdering_unnamed]
    exact ⟨rfl, rfl⟩

/-- The request of a routine goes the same way without names. -/
theorem requestRoutine_simulates (routine : Node) (id : Nat) :
    Simulates Unnamed Eq (Emit.requestRoutine routine id)
      (Emit.requestRoutine routine.unnamed id) := by
  unfold Emit.requestRoutine
  rw [isFixed_unnamed]
  cases routine.isFixed with
  | false => exact .refused_bind _ _ _
  | true =>
    refine .modifyGet ?_
    rintro before _ rfl
    rw [before.requestRoutine_unnamed]
    exact ⟨rfl, rfl⟩

/-- The code that performs unordered writes is written the same way without names. -/
theorem unorderedText_unnamed (site : Site) (writes : List Node) (order : String) :
    Simulates Unnamed Eq (unorderedText site writes order)
      (unorderedText site (unnamedAll writes) order) := by
  obtain ⟨id, owner⟩ := site
  cases owner with
  | none => exact .refused_bind _ _ _
  | some name =>
    refine (requestOrdering_simulates writes id).follow fun number => ?_
    refine (ofExcept_unnamed _).follow fun width => ?_
    simp only [length_unnamedAll]
    by_cases wide : Permutation.count writes.length - 1 ≥ Bits.capacity width
    · rw [if_pos wide]
      exact .refused_bind _ _ _
    · rw [if_neg wide]
      refine (update_unnamed id ?_).bind fun _ _ _ =>
        (use_unnamed ⟨id, some name⟩ order).bind fun _ _ _ =>
          (markFailing_unnamed ⟨id, some name⟩).bind fun _ _ _ => .pure rfl
      exact fun _ => rfl

/-- Actions are written the same way without names. -/
theorem action_unnamed (site : Site) :
    (∀ node, Simulates Unnamed Eq (action site node) (action site node.unnamed)) ∧
    (∀ nodes, Simulates Unnamed Eq (actions site nodes) (actions site (unnamedAll nodes))) := by
  apply Node.action_induction
  case write =>
    intro value size
    simp only [Node.unnamed, action]
    refine (expression_unnamed site value).follow fun code => ?_
    exact .pure rfl
  case packed =>
    intro values sizes
    simp only [Node.unnamed, action]
    refine (packedTerms_unnamed site _ values _).follow fun terms => ?_
    exact .pure rfl
  case branch =>
    intro condition taken otherwise takenHypothesis otherwiseHypothesis
    simp only [Node.unnamed, action, isEmpty_unnamedAll]
    refine (expression_unnamed site condition).follow fun test => ?_
    refine takenHypothesis.follow fun first => ?_
    cases otherwise with
    | nil => exact .pure rfl
    | cons node rest =>
      refine otherwiseHypothesis.follow fun second => ?_
      exact .pure rfl
  case abort =>
    intro message
    simp only [Node.unnamed, action]
    exact (markFailing_unnamed site).bind fun _ _ _ => .pure rfl
  case call =>
    intro routine
    simp only [Node.unnamed, action]
    refine (requestRoutine_simulates routine _).follow fun id => ?_
    exact (markFailing_unnamed site).bind fun _ _ _ => .pure rfl
  case single =>
    intro single order inductionHypothesis
    simp only [Node.unnamed, unnamedAll, action]
    exact inductionHypothesis
  case several =>
    intro writes order several
    have still : (unnamedAll writes).length ≠ 1 := by rwa [length_unnamedAll]
    rw [Node.unnamed, action_unordered site several, action_unordered site still]
    exact unorderedText_unnamed site writes order.plain
  case other =>
    intro node none
    have noneToo : node.unnamed.isAction = false := by rwa [isAction_unnamed]
    rw [action_other site none, action_other site noneToo, shown_unnamed]
    exact .refused _
  case nil =>
    simp only [unnamedAll, actions]
    exact .pure rfl
  case cons =>
    intro node rest firstHypothesis restHypothesis
    simp only [unnamedAll, actions]
    refine firstHypothesis.follow fun first => ?_
    refine restHypothesis.follow fun others => ?_
    exact .pure rfl

/-- A new emitter is the same without names. -/
theorem newEmitter_unnamed (instruction : Option Instruction) (address : Callers) :
    Simulates Unnamed Eq (Emit.newEmitter instruction address)
      (Emit.newEmitter (instruction.map Instruction.unnamed) address) := by
  refine .modifyGet ?_
  rintro before _ rfl
  simp [Emission.add, Unnamed, Emission.unnamed, Emitter.fresh, Emitter.unnamed]

/-- Two functions that differ in their comments at most: they have the same name, prototype
and body. -/
inductive SameFunction : Code.Element → Code.Element → Prop where
  | commented (comment remark : Code.Comment) (name : String) (parameters : List Code.Element)
      (body : Code.Element) :
    SameFunction (.function comment name .bool parameters body true false)
      (.function remark name .bool parameters body true false)

/-- Functions of the same code are the same, up to their comments. -/
theorem encodingFunction_unnamed (comment remark : Code.Comment) (name code : String)
    (parameters : List Code.Element) (site : Site) :
    Simulates Unnamed
      (fun function other => SameFunction function other ∧ (comment = remark → function = other))
      (encodingFunction comment name code parameters site)
      (encodingFunction remark name code parameters site) := by
  refine read_unnamed fun before => ?_
  have failing : (before.unnamed.emitters[site.emitter]?.map (·.canFail)) =
      before.emitters[site.emitter]?.map (·.canFail) := by
    simp [Emission.unnamed, Emitter.unnamed, Function.comp_def]
  rw [failing]
  exact .pure ⟨.commented .., fun same => by rw [same]⟩

/-- The function of an instruction is the same without names. -/
theorem instructionFunction_unnamed (site : Site) (instruction : Instruction) :
    Simulates Unnamed Eq (instructionFunction site instruction)
      (instructionFunction site instruction.unnamed) := by
  refine ((action_unnamed site).2 instruction.encoding).follow fun code => ?_
  exact (encodingFunction_unnamed _ _ _ _ _ _).weaken fun _ _ same => same.2 rfl

/-- The cases of unordered writes are the same without names. -/
theorem orderedCases_unnamed (site : Site) (index : Nat) (writes : List Node) :
    Simulates Unnamed Eq (orderedCases site index writes)
      (orderedCases site index (unnamedAll writes)) := by
  induction writes generalizing index with
  | nil => exact .pure rfl
  | cons write rest inductionHypothesis =>
    refine ((action_unnamed site).1 write).follow fun code => ?_
    refine (inductionHypothesis (index + 1)).follow fun others => ?_
    exact .pure rfl

/-- The function of unordered writes is the same without names. -/
theorem orderingFunction_unnamed (site : Site) (writes : List Node) (id table : String) :
    Simulates Unnamed Eq (orderingFunction site writes id table)
      (orderingFunction site (unnamedAll writes) id table) := by
  refine (orderedCases_unnamed site 0 writes).follow fun cases => ?_
  rw [length_unnamedAll]
  exact (encodingFunction_unnamed _ _ _ _ _ _).weaken fun _ _ same => same.2 rfl

/-- The function of a routine is the same without names, up to its comment. -/
theorem routineFunction_unnamed (site : Site) (routine : Node) (id : String) :
    Simulates Unnamed SameFunction (routineFunction site routine id)
      (routineFunction site routine.unnamed id) := by
  cases routine with
  | routine name members =>
    refine ((action_unnamed site).2 members).follow fun code => ?_
    exact (encodingFunction_unnamed _ _ _ _ _ _).weaken fun _ _ same => same.1
  | _ => exact .refused _

/-- The functions of unordered writes are the same without names. -/
theorem emitOrderings_unnamed (id : Nat) (entries : List (List Node × List Nat)) :
    Simulates Unnamed Eq (emitOrderings id entries)
      (emitOrderings id (entries.map fun entry => (unnamedAll entry.1, entry.2))) := by
  induction entries generalizing id with
  | nil => exact .pure rfl
  | cons entry rest inductionHypothesis =>
    obtain ⟨writes, consumers⟩ := entry
    simp only [List.map_cons, emitOrderings, length_unnamedAll]
    refine (newEmitter_unnamed none (.ofOrdering id)).follow fun emitter => ?_
    refine (orderingFunction_unnamed _ writes _ _).follow fun function => ?_
    refine (changed_unnamed fun emission => ?_).bind fun _ _ _ => ?_
    · exact emission.unnamed_mergeAll emitter consumers
    · refine (inductionHypothesis (id + 1)).follow fun functions => ?_
      exact .pure rfl

/-- The function of a routine is emitted the same way without names. -/
theorem emitRoutine_unnamed (id : Nat) (routine : Node) :
    Simulates Unnamed SameFunction (emitRoutine id routine) (emitRoutine id routine.unnamed) := by
  refine (newEmitter_unnamed none (.ofRoutine id)).follow fun emitter => ?_
  refine (routineFunction_unnamed _ routine _).bind fun function other same => ?_
  refine (changed_unnamed fun emission => ?_).bind fun _ _ _ => ?_
  · rfl
  · refine (changed_unnamed fun emission => ?_).bind fun _ _ _ => .pure same
    rw [Emission.callers_unnamed]
    exact emission.unnamed_mergeAll _ _

/-- The functions of routines are emitted the same way without names. -/
theorem emitRoutinesWithin_unnamed (fuel id : Nat) :
    Simulates Unnamed (List.Forall₂ SameFunction) (emitRoutinesWithin fuel id)
      (emitRoutinesWithin fuel id) := by
  induction fuel generalizing id with
  | zero => exact .pure .nil
  | succ fuel inductionHypothesis =>
    refine read_unnamed fun before => ?_
    have key : before.unnamed.routines.key? id = (before.routines.key? id).map Node.unnamed :=
      Ledger.key?_mapKeys ..
    rw [key]
    cases before.routines.key? id with
    | none => exact .pure .nil
    | some routine =>
      refine (emitRoutine_unnamed id routine).bind fun function other same => ?_
      exact (inductionHypothesis (id + 1)).bind fun _ _ all => .pure (.cons same all)

/-- The loop of routines has as much fuel without names. -/
theorem emitRoutines_unnamed :
    Simulates Unnamed (List.Forall₂ SameFunction) emitRoutines emitRoutines := by
  refine read_unnamed fun before => ?_
  have calls (entry : Node × List Nat) :
      1 + callCount entry.1.unnamed = 1 + callCount entry.1 := by
    rw [callCount_eq_of_same.1 _ _ (same_own_unnamed entry.1)]
  have fuel : (before.unnamed.routines.entries.map fun entry => 1 + callCount entry.1) =
      before.routines.entries.map fun entry => 1 + callCount entry.1 := by
    simp only [Emission.unnamed, Ledger.mapKeys, List.map_map, Function.comp_def, calls]
  simp only [fuel]
  exact emitRoutinesWithin_unnamed _ 0

end Generator

end EncoderTables