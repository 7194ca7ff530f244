import Mathlib.Data.List.Forall2
import EncoderTables.Proofs.Generator.Reachability

/-!
# Functions of routines

When the functions of instructions and of unordered writes have been emitted, those of
routines can be, as long as each routine that the set reaches translates. Emitting one may
request others, but the loop ends by itself; behind it there is exactly one function for each
routine that is reached, up to sameness. The functions are named by their positions, and each
call in the code of any function names the position of a function that performs the same
actions.
-/

namespace EncoderTables.Generator

open Node Steps

/-- An element that is a function with a code as its body. -/
def IsFunction (comment : Code.Comment) (name : String) (parameters : List Code.Element)
    (code : Except Failure String) (element : Code.Element) : Prop :=
  ∃ text failing, code = .ok text ∧
    element = .function comment name .bool parameters (.plain (bodyText text failing)) true false

/-- The function of an instruction, in which calls name functions by numbers. -/
def IsInstruction (numbers : Numbers) (instruction : Instruction) : Code.Element → Prop :=
  IsFunction .none (Naming.encoder instruction.name) [contextParameter]
    (codeAll numbers (some instruction.name) instruction.encoding)

/-- The code of a function of unordered writes. -/
def orderingCode (numbers : Numbers) (writes : List Node) : Except Failure String := do
  let cases ← orderedCode numbers 0 writes
  return "for(unsigned i = 0; i < " ++ toString writes.length ++ "; i++) \x7b\n" ++
    "switch(" ++ Naming.permutationTable (toString writes.length) ++ "[order][i]) \x7b\n" ++
    cases ++ "default:\nevoasm_assert_not_reached();\n\x7d\n\x7d\n"

/-- The function of unordered writes with a number, in which calls name functions by numbers. -/
def IsOrdering (numbers : Numbers) (writes : List Node) (id : Nat) : Code.Element → Prop :=
  IsFunction .none (Naming.orderingFunction (toString id))
    [contextParameter, .parameter ⟨"order", .unsigned⟩] (orderingCode numbers writes)

/-- The function of a routine with a number, in which calls name functions by numbers. -/
def IsRoutine (numbers : Numbers) (routine : Node) (id : Nat) (element : Code.Element) : Prop :=
  ∃ name members, routine = .routine name members ∧
    IsFunction ⟨name, ""⟩ (Naming.routineFunction (toString id)) [contextParameter]
      (codeAll numbers none members) element

/-- A function is made of the code that has been written. -/
theorem encodingFunction_is {comment : Code.Comment} {name code : String}
    {parameters : List Code.Element} {site : Site} {before after : Emission}
    {function : Code.Element}
    (made : encodingFunction comment name code parameters site before = .ok function after) :
    IsFunction comment name parameters (.ok code) function := by
  simp only [encodingFunction, bind_ok_iff, get_ok_iff, pure_ok_iff] at made
  obtain ⟨_, _, -, rfl, -⟩ := made
  exact ⟨code, _, rfl, rfl⟩

/-- The actions of a body have been written with the numbers that the ledgers hold by then. -/
theorem codeAll_of_actions {site : Site} {nodes : List Node} {before after : Emission}
    {code : String} {numbers : Numbers} (written : actions site nodes before = .ok code after)
    (numbered : after.Numbered numbers) : codeAll numbers site.instruction nodes = .ok code := by
  have found := (action_finds site).2 nodes before
  rw [written] at found
  exact found.2 numbers numbered

/-- The cases of unordered writes have been written with the numbers that the ledgers hold. -/
theorem orderedCode_of_orderedCases {emitter index : Nat} {writes : List Node}
    {before after : Emission} {code : String} {numbers : Numbers}
    (written : orderedCases ⟨emitter, none⟩ index writes before = .ok code after)
    (numbered : after.Numbered numbers) : orderedCode numbers index writes = .ok code := by
  have found := orderedCases_finds emitter index writes before
  rw [written] at found
  exact found.2 numbers numbered

/-- The function of an instruction. -/
theorem instructionFunction_is {site : Site} {instruction : Instruction}
    {before after : Emission} {function : Code.Element} {numbers : Numbers}
    (owned : site.instruction = some instruction.name)
    (made : instructionFunction site instruction before = .ok function after)
    (numbered : after.Numbered numbers) : IsInstruction numbers instruction function := by
  simp only [instructionFunction, bind_ok_iff] at made
  obtain ⟨code, middle, written, made⟩ := made
  obtain rfl := encodingFunction_unchanged made
  rw [IsInstruction, ← owned, codeAll_of_actions written numbered]
  exact encodingFunction_is made

/-- The function of unordered writes. -/
theorem orderingFunction_is {emitter id : Nat} {writes : List Node} {before after : Emission}
    {function : Code.Element} {numbers : Numbers}
    (made : orderingFunction ⟨emitter, none⟩ writes (toString id)
      (Naming.permutationTable (toString writes.length)) before = .ok function after)
    (numbered : after.Numbered numbers) : IsOrdering numbers writes id function := by
  simp only [orderingFunction, bind_ok_iff] at made
  obtain ⟨cases, middle, written, made⟩ := made
  obtain rfl := encodingFunction_unchanged made
  rw [IsOrdering, orderingCode, orderedCode_of_orderedCases written numbered]
  exact encodingFunction_is made

/-- The function of a routine. -/
theorem routineFunction_is {emitter id : Nat} {routine : Node} {before after : Emission}
    {function : Code.Element} {numbers : Numbers}
    (made : routineFunction ⟨emitter, none⟩ routine (toString id) before = .ok function after)
    (numbered : after.Numbered numbers) : IsRoutine numbers routine id function := by
  cases routine with
  | routine name members =>
    simp only [routineFunction, bind_ok_iff] at made
    obtain ⟨code, middle, written, made⟩ := made
    obtain rfl := encodingFunction_unchanged made
    refine ⟨name, members, rfl, ?_⟩
    have own : codeAll numbers none members = .ok code := codeAll_of_actions written numbered
    rw [own]
    exact encodingFunction_is made
  | _ => simp [routineFunction] at made

/-- The functions of instructions extend what is there. -/
theorem emitInstructions_extends (instructions : List Instruction) :
    Keeps (fun before after : Session => before.emission.Extends (some "") after.emission)
      (emitInstructions instructions) := by
  have refl : Std.Refl fun before after : Session =>
      before.emission.Extends (some "") after.emission := ⟨fun session => .refl _ session.emission⟩
  have trans : IsTrans Session fun before after : Session =>
      before.emission.Extends (some "") after.emission := ⟨fun _ _ _ head tail => head.trans tail⟩
  induction instructions with
  | nil => exact .pure _
  | cons instruction rest inductionHypothesis =>
    have function (id : Nat) : Keeps (Emission.Extends (some instruction.name))
        (instructionFunction ⟨id, some instruction.name⟩ instruction) :=
      ((action_finds _).2 instruction.encoding).keeps.bind fun _ =>
        encodingFunction_keeps _ _ _ _ _ _
    refine (emit_keeps (fun _ _ extended => extended) (newEmitter_keeps (some "") _ _)).bind
      fun id => ?_
    refine (emit_keeps (fun session emission extended => ?_) (function id)).bind fun function => ?_
    · exact ⟨extended.places, extended.routines, extended.orderings, fun none => by cases none⟩
    · exact (Keeps.changed fun session => .refl _ session.emission).bind fun _ =>
        inductionHypothesis.bind fun _ => .pure _

/-- The functions of instructions, one for each. -/
theorem emitInstructions_are {instructions : List Instruction} {before after : Session}
    {functions : List Code.Element} {numbers : Numbers}
    (made : emitInstructions instructions before = .ok functions after)
    (numbered : after.emission.Numbered numbers) :
    List.Forall₂ (IsInstruction numbers) instructions functions := by
  induction instructions generalizing before functions with
  | nil =>
    simp only [emitInstructions, pure_ok_iff] at made
    obtain ⟨rfl, -⟩ := made
    exact .nil
  | cons instruction rest inductionHypothesis =>
    obtain ⟨function, written, others, own, remaining, rfl⟩ := emitInstructions_cons_ok_iff.mp made
    have extended := (emitInstructions_extends rest).ok remaining
    exact .cons (instructionFunction_is rfl own (numbered.earlier extended))
      (inductionHypothesis remaining)

/-- The functions of unordered writes, one for each, named by their numbers. -/
theorem emitOrderings_are {id : Nat} {entries : List (List Node × List Nat)}
    {before after : Emission} {functions : List Code.Element} {numbers : Numbers}
    (made : emitOrderings id entries before = .ok functions after)
    (numbered : after.Numbered numbers) :
    List.Forall₂ (fun entry => IsOrdering numbers entry.1 entry.2)
      ((entries.map (·.1)).zipIdx id) functions := by
  induction entries generalizing id before functions with
  | nil =>
    simp only [emitOrderings, pure_ok_iff] at made
    obtain ⟨rfl, -⟩ := made
    exact .nil
  | cons entry rest inductionHypothesis =>
    obtain ⟨writes, consumers⟩ := entry
    obtain ⟨function, written, others, own, remaining, rfl⟩ := emitOrderings_cons_ok_iff.mp made
    have extended := (mergeAll_extends none before.emitters.length consumers written).trans
      ((emitOrderings_keeps (id + 1) rest).ok remaining)
    exact .cons (orderingFunction_is own (numbered.earlier extended))
      (inductionHypothesis remaining)

/-- The function of a routine is written for a new emitter, which is then known as the one of
the routine. -/
theorem emitRoutine_written {id : Nat} {routine : Node} {before after : Emission}
    {function : Code.Element} (made : emitRoutine id routine before = .ok function after) :
    ∃ written, routineFunction ⟨before.emitters.length, none⟩ routine (toString id)
        (before.add (.fresh none (.ofRoutine id))).2 = .ok function written ∧
      written.Extends none after ∧
      after.emitted = Emission.setEmitted id before.emitters.length written.emitted := by
  obtain ⟨written, known, made, registered, spread⟩ := emitRoutine_ok_iff.mp made
  have reshaped := mergeAll_reshaped before.emitters.length (known.callers (.ofRoutine id)) known
  rw [spread] at reshaped
  have extended : written.Extends none known := by
    rw [← registered]
    exact ⟨List.prefix_rfl, .refl _, .refl _, fun _ => ⟨rfl, rfl⟩⟩
  refine ⟨written, made, extended.trans (reshaped.extends none), ?_⟩
  rw [reshaped.frame, ← registered]

/-- The functions of routines, one for each of those that are numbered from a number on, named
by their numbers. -/
theorem emitRoutinesWithin_are {fuel id : Nat} {before after : Emission}
    {functions : List Code.Element} {numbers : Numbers}
    (made : emitRoutinesWithin fuel id before = .ok functions after)
    (numbered : after.Numbered numbers) :
    List.Forall₂ (fun entry => IsRoutine numbers entry.1 entry.2)
      (((after.routines.keys.drop id).take functions.length).zipIdx id) functions := by
  induction fuel generalizing id before functions with
  | zero =>
    simp only [emitRoutinesWithin, pure_ok_iff] at made
    obtain ⟨rfl, -⟩ := made
    exact .nil
  | succ fuel inductionHypothesis =>
    rcases emitRoutinesWithin_succ_ok_iff.mp made with
      ⟨-, rfl, -⟩ | ⟨routine, function, middle, others, requested, own, remaining, rfl⟩
    · exact .nil
    · have later := (emitRoutinesWithin_keeps fuel (id + 1)).ok remaining
      have grown := ((emitRoutine_keeps id routine).ok own).trans later
      have listed : after.routines.keys[id]? = some routine := by
        rw [Ledger.keys, List.getElem?_map]
        exact grown.routines.key? requested
      obtain ⟨inside, here⟩ := List.getElem?_eq_some_iff.mp listed
      rw [List.drop_eq_getElem_cons inside, here, List.length_cons, List.take_succ_cons,
        List.zipIdx_cons]
      refine .cons ?_ (inductionHypothesis remaining)
      obtain ⟨written, made, extended, -⟩ := emitRoutine_written own
      exact routineFunction_is made (numbered.earlier (extended.trans later))

/-- A routine is known as emitted behind its function, and no other one is. -/
theorem emitRoutine_registers {id : Nat} {routine : Node} {before after : Emission}
    {function : Code.Element} (made : emitRoutine id routine before = .ok function after)
    (other : Nat) : (after.emitted.lookup other).isSome = true ↔
      (before.emitted.lookup other).isSome = true ∨ other = id := by
  obtain ⟨written, made, -, registered⟩ := emitRoutine_written made
  have unchanged : written.emitted = before.emitted := by
    rw [(routineFunction_wrote made).1, (Emission.performAll_frame ..).2.1]
    rfl
  rw [registered, lookup_setEmitted, unchanged]
  split
  · next same => simp [same]
  · next different => simp [different]

/-- The loop registers as many routines as it emits functions. -/
theorem emitRoutinesWithin_registers {fuel id : Nat} {before after : Emission}
    {functions : List Code.Element}
    (made : emitRoutinesWithin fuel id before = .ok functions after) (other : Nat) :
    (after.emitted.lookup other).isSome = true ↔
      (before.emitted.lookup other).isSome = true ∨
        id ≤ other ∧ other < id + functions.length := by
  induction fuel generalizing id before functions with
  | zero =>
    simp only [emitRoutinesWithin, pure_ok_iff] at made
    obtain ⟨rfl, rfl⟩ := made
    simp
  | succ fuel inductionHypothesis =>
    rcases emitRoutinesWithin_succ_ok_iff.mp made with
      ⟨-, rfl, rfl⟩ | ⟨routine, function, middle, others, -, own, remaining, rfl⟩
    · simp
    · rw [inductionHypothesis remaining, emitRoutine_registers own, or_assoc, List.length_cons]
      refine or_congr_right ?_
      omega

/-- The loop ends by itself where no routine is requested any more: more fuel changes
nothing. -/
theorem emitRoutinesWithin_ends {fuel other id : Nat} {before after : Emission}
    {functions : List Code.Element}
    (made : emitRoutinesWithin fuel id before = .ok functions after)
    (done : after.routines.key? (id + functions.length) = none)
    (enough : functions.length < other) :
    emitRoutinesWithin other id before = .ok functions after := by
  induction fuel generalizing id before functions other with
  | zero =>
    simp only [emitRoutinesWithin, pure_ok_iff] at made
    obtain ⟨rfl, rfl⟩ := made
    obtain ⟨more, rfl⟩ := Nat.exists_eq_add_one_of_ne_zero (Nat.ne_of_gt enough)
    exact emitRoutinesWithin_succ_ok_iff.mpr (.inl ⟨done, rfl, rfl⟩)
  | succ fuel inductionHypothesis =>
    obtain ⟨more, rfl⟩ := Nat.exists_eq_add_one_of_ne_zero (Nat.ne_zero_of_lt enough)
    refine emitRoutinesWithin_succ_ok_iff.mpr ?_
    rcases emitRoutinesWithin_succ_ok_iff.mp made with
      stopped | ⟨routine, function, middle, others, requested, own, remaining, rfl⟩
    · exact .inl stopped
    · rw [List.length_cons, Nat.add_comm others.length, ← Nat.add_assoc] at done
      exact .inr ⟨routine, function, middle, others, requested, own,
        inductionHypothesis remaining done (by simpa using enough), rfl⟩

/-- A node that is the same as a routine is one, and its actions are the same. -/
theorem routineActions_of_same {left right : Node} {members : List Node}
    (equal : same left right = true) (actions : right.routineActions? = some members) :
    ∃ own, left.routineActions? = some own ∧ sameAll own members = true := by
  cases right with
  | routine name others =>
    obtain rfl := Option.some.inj actions
    cases left with
    | routine other own => exact ⟨own, rfl, equal⟩
    | _ => cases equal
  | _ => cases actions

namespace Emission.Complete

variable {emission : Emission} {set : InstructionSet}

/-- The body of a shared function has requested each routine that it calls. -/
theorem requested_of_shared (complete : emission.Complete) {id : Nat} {address : Callers}
    (found : emission.places[id]? = some (none, address)) {target : Node}
    (calls : target ∈ calledAll (emission.scopeOf id)) :
    ∃ routine key, emission.routines.key? routine = some key ∧ same key target = true := by
  rcases effectsAll_of_called _ target calls with own | ⟨writes, among, -⟩
  · obtain ⟨-, routine, key, known, equal, -⟩ := complete.consistent.settled id (by simp) _ own
    exact ⟨routine, key, known, equal⟩
  · have admitted := (complete.consistent.settled id (by simp) _ among).1
    simp [Effect.Admitted, ownerOf, found] at admitted

/-- Each body has requested the routines that it calls, or the unordered writes that call
them have. -/
theorem requested (complete : emission.Complete) {id : Nat} {target : Node}
    (calls : target ∈ calledAll (emission.scopeOf id)) :
    ∃ routine key, emission.routines.key? routine = some key ∧ same key target = true := by
  rcases effectsAll_of_called _ target calls with own | ⟨writes, among, inside⟩
  · obtain ⟨-, routine, key, known, equal, -⟩ := complete.consistent.settled id (by simp) _ own
    exact ⟨routine, key, known, equal⟩
  · obtain ⟨-, ordering, key, known, equal, -⟩ := complete.consistent.settled id (by simp) _ among
    obtain ⟨source, found, scope⟩ := complete.exists_ordering known
    obtain ⟨other, called, alike⟩ := calledAll_of_sameAll key writes equal target inside
    obtain ⟨routine, asked, here, again⟩ := complete.requested_of_shared found (scope ▸ called)
    exact ⟨routine, asked, here, same_trans.1 _ _ again _ alike⟩

/-- Each routine that the set reaches has been requested, up to sameness: by the induction
hypothesis one that calls it has, and the body of its function has been written. -/
theorem reached (complete : emission.Complete)
    (encoded : ∀ instruction ∈ set.instructions, ∃ id, emission.scopeOf id = instruction.encoding)
    {target : Node} (reachable : Reachable set target) :
    ∃ routine key, emission.routines.key? routine = some key ∧ same key target = true := by
  induction reachable with
  | encoding member calls =>
    obtain ⟨id, scope⟩ := encoded _ member
    exact complete.requested (scope ▸ calls)
  | @routine caller target members _ actions calls inductionHypothesis =>
    obtain ⟨routine, key, known, equal⟩ := inductionHypothesis
    obtain ⟨own, scope, alike⟩ := routineActions_of_same equal actions
    obtain ⟨source, found, body⟩ := complete.exists_routine known
    rw [scope, Option.getD_some] at body
    obtain ⟨other, called, same⟩ := calledAll_of_sameAll own members alike target calls
    obtain ⟨number, asked, here, again⟩ := complete.requested_of_shared found (body ▸ called)
    exact ⟨number, asked, here, same_trans.1 _ _ again _ same⟩

end Emission.Complete

/-- A key that has been requested is found under a number that holds it. -/
theorem numbers_found {emission : Emission} {routine : Nat} {key target : Node}
    (known : emission.routines.key? routine = some key) (equal : same key target = true) :
    ∃ found, emission.routines.keys[emission.numbers.routine target]? = some found ∧
      same found target = true := by
  obtain ⟨id, found, listed, place, alike⟩ := Ledger.exists_id? (Ledger.mem_keys known) equal
  exact ⟨found, by simpa [Emission.numbers, listed] using place, alike⟩

/-- A sound ledger holds no two routines that are the same. -/
theorem Emission.Sound.unique {wanted : Node → Prop} {emission : Emission}
    (sound : emission.Sound wanted) {id other : Nat} {first second : Node}
    (here : emission.routines.keys[id]? = some first)
    (there : emission.routines.keys[other]? = some second) (equal : same first second = true) :
    id = other := by
  obtain ⟨inside, rfl⟩ := List.getElem?_eq_some_iff.mp here
  obtain ⟨within, rfl⟩ := List.getElem?_eq_some_iff.mp there
  have apart := List.pairwise_iff_getElem.mp sound.distinct
  rcases Nat.lt_trichotomy id other with before | rfl | behind
  · have different := apart id other inside within before
    cases different.symm.trans equal
  · rfl
  · have different := apart other id within inside behind
    cases different.symm.trans (same_symm.1 _ _ equal)

/-- What has been emitted behind the functions of instructions and of unordered writes: bodies
of instructions, and a function of each list of unordered writes that they have requested. -/
theorem moment_orderings {set : InstructionSet} {reached : Session}
    (found : moment set [.instructionFunctions, .orderingFunctions] = some reached) :
    ∃ instructions first orderings, moment set [.instructionFunctions] = some first ∧
      produce .instructionFunctions (.bare set) = .ok instructions first ∧
      produce .orderingFunctions first = .ok orderings reached ∧
      Listed set reached ∧ reached.emission.Consistent none ∧ reached.emission.emitted = [] ∧
      ∀ ordering < reached.emission.orderings.size, ∃ id : Nat,
        reached.emission.places[id]? = some (none, .ofOrdering ordering) := by
  obtain ⟨first, initial, behind⟩ : ∃ first, moment set [.instructionFunctions] = some first ∧
      first.behind? .orderingFunctions = some reached := by
    simpa [moment, Option.bind_eq_some_iff] using found
  obtain ⟨instructions, written⟩ := (Session.behind?_eq_some_iff ..).mp
    (show (Session.bare set).behind? .instructionFunctions = some first by
      simpa [moment] using initial)
  obtain ⟨orderings, made⟩ := (Session.behind?_eq_some_iff ..).mp behind
  have listed := (moment_listed initial).resumes ((produce_resumes (by decide)).ok made)
  refine ⟨instructions, first, orderings, initial, written, made, listed, ?_⟩
  rw [produce_instructionFunctions] at written
  obtain ⟨owned, fresh, -⟩ := emitInstructions_emitted Emission.empty_consistent
    (by simp [Emission.Unshared, Emission.places, Session.bare, Emission.empty]) rfl written
  rw [produce_orderingFunctions, Run.emit_ok_iff] at made
  obtain ⟨emission, made, rfl⟩ := made
  obtain ⟨shared, unregistered⟩ := emitOrderings_emitted owned.consistent rfl made
  refine ⟨shared.consistent, unregistered.trans fresh, fun ordering inside => ?_⟩
  have size : ordering < first.emission.orderings.entries.length := by
    rw [← shared.orderings (by simp)]
    exact inside
  refine ⟨first.emission.places.length + ordering, ?_⟩
  rw [shared.places, List.getElem?_append_right (Nat.le_add_right ..)]
  simp [List.getElem?_range' size]

/-- Once all routines have been emitted there is a function for each of them. -/
theorem emitRoutines_size {before after : Emission} {functions : List Code.Element}
    (consistent : before.Consistent none) (fresh : before.emitted = [])
    (made : emitRoutines before = .ok functions after) :
    after.routines.size = functions.length := by
  obtain ⟨-, registered⟩ := emitRoutines_emitted consistent fresh made
  rw [emitRoutines_eq] at made
  have bound := (emitRoutinesWithin_are made after.numbers_numbered).length_eq
  have numbered (routine : Nat) (inside : routine < after.routines.size) :
      routine < functions.length := by
    have known := (emitRoutinesWithin_registers made routine).mp (registered routine inside)
    simpa [fresh] using known
  have keys : after.routines.keys.length = after.routines.size := List.length_map ..
  have small : after.routines.size ≤ functions.length := by
    by_contra large
    exact Nat.lt_irrefl _ (numbered functions.length (Nat.lt_of_not_le large))
  simp only [List.drop_zero, List.length_zipIdx, List.length_take, keys] at bound
  omega

/-- The functions of routines have been emitted behind those of instructions and of unordered
writes, so there is a function for each routine that has been requested, and each that the set
reaches has been. -/
theorem emitRoutines_complete {set : InstructionSet} {reached : Session} {after : Emission}
    {functions : List Code.Element}
    (found : moment set [.instructionFunctions, .orderingFunctions] = some reached)
    (made : emitRoutines reached.emission = .ok functions after) :
    after.routines.size = functions.length ∧
      after.orderings = reached.emission.orderings ∧
      ∀ target, Reachable set target →
        ∃ routine key, after.routines.key? routine = some key ∧ same key target = true := by
  obtain ⟨-, -, -, -, -, -, listed, consistent, fresh, placed⟩ := moment_orderings found
  obtain ⟨⟨added, unowned, emitted⟩, registered⟩ := emitRoutines_emitted consistent fresh made
  have orderings := emitted.orderings unowned
  have complete : after.Complete := by
    refine ⟨emitted.consistent, registered, fun ordering inside => ?_⟩
    rw [orderings] at inside
    obtain ⟨id, place⟩ := placed ordering inside
    exact ⟨id, emitted.grown.getElem?_places place⟩
  refine ⟨emitRoutines_size consistent fresh made, orderings,
    fun target reachable => complete.reached ?_ reachable⟩
  intro instruction member
  obtain ⟨position, place⟩ := List.mem_iff_getElem?.mp member
  have own := emitted.grown.getElem?_places (listed.placed position instruction place)
  exact ⟨position, by simp [Emission.scopeOf, own, Emission.scope, ownPlace]⟩

/-- Functions that are shared: those of routines among the elements of a session, the routines
that have them, and the numbers by which the code of all functions calls them. -/
structure Session.Shares (set : InstructionSet) (session : Session)
    (functions : List Code.Element) (routines : List Node) (numbers : Numbers) : Prop where
  listed : session.elements.lookup .routineFunctions = some functions
  /-- There is one function for each of the routines, named by its position. -/
  functions : List.Forall₂ (fun entry => IsRoutine numbers entry.1 entry.2) routines.zipIdx
    functions
  /-- The functions of instructions call routines by these numbers. -/
  instructions : ∃ functions, session.elements.lookup .instructionFunctions = some functions ∧
    List.Forall₂ (IsInstruction numbers) set.instructions functions
  /-- The functions of unordered writes do, too. -/
  orderings : ∃ functions, session.elements.lookup .orderingFunctions = some functions ∧
    List.Forall₂ (fun entry => IsOrdering numbers entry.1 entry.2)
      session.emission.orderings.keys.zipIdx functions
  /-- They call only routines that the set reaches, as all others do. -/
  called : ∀ writes ∈ session.emission.orderings.keys, ∀ target ∈ calledAll writes,
    Reachable set target
  /-- No two of the routines are the same. -/
  distinct : ∀ (id other : Nat) (first second : Node), routines[id]? = some first →
    routines[other]? = some second → same first second = true → id = other
  /-- Only routines that the set reaches have functions. -/
  reachable : ∀ routine ∈ routines, Reachable set routine
  /-- A routine that the set reaches has the number of a function that performs the same
  actions. -/
  numbered : ∀ target, Reachable set target →
    ∃ routine, routines[numbers.routine target]? = some routine ∧ same routine target = true

/-- A phase that has run has left the elements that the set decides about. -/
theorem Progress.lookup {set : InstructionSet} {session : Session} {phase : Phase}
    {elements : List Code.Element} (progress : Progress set session)
    (ran : session.hasRun phase = true) (decided : Generator.canonical set phase = some elements) :
    session.elements.lookup phase = some elements := by
  obtain ⟨found, listed⟩ := Option.isSome_iff_exists.mp ran
  have same := progress.made (phase, found) (mem_of_lookup listed)
  rw [listed, ← same.symm.trans decided]

/-- As long as all routines that the set reaches translate, the phase of routines is not blocked:
what is behind the phases before it has been found out. -/
theorem Progress.matched {set : InstructionSet} {before : Session}
    (progress : Progress set before) (within : before.Within set)
    (allowed : checkPhase before .routineFunctions = .ok ())
    (translate : ∀ routine, Reachable set routine → Translates routine) :
    ∃ reached, moment set [.instructionFunctions, .orderingFunctions] = some reached ∧
      reached.Matches before := by
  obtain ⟨-, -, reached, found, stage⟩ := progress.next (by decide) allowed
  refine ⟨reached, found, stage.resolve_right ?_⟩
  rintro ⟨⟨routine, key, known, untranslated⟩, -⟩
  exact untranslated (translate key (within.2.routines key (Ledger.mem_keys known)))

/-- As long as all routines that the set reaches translate, their functions are produced. -/
theorem produce_routineFunctions_ok {set : InstructionSet} {before : Session}
    (within : before.Within set)
    (translate : ∀ routine, Reachable set routine → Translates routine) :
    ∃ functions after, produce .routineFunctions before = .ok functions after := by
  cases made : produce .routineFunctions before with
  | ok functions after => exact ⟨functions, after, rfl⟩
  | error failure after =>
    have still := (produce_within .routineFunctions).error made within
    obtain ⟨routine, key, known, untranslated⟩ := blocked_of_error (by decide) made
    exact absurd (translate key (still.2.routines key (Ledger.mem_keys known))) untranslated

/-- Functions of routines that have been produced at their moment are shared. -/
theorem Progress.shares_of_ok {set : InstructionSet} {before reached after : Session}
    {functions : List Code.Element} (progress : Progress set before) (within : before.Within set)
    (allowed : checkPhase before .routineFunctions = .ok ())
    (found : moment set [.instructionFunctions, .orderingFunctions] = some reached)
    (equal : reached.Matches before)
    (made : produce .routineFunctions before = .ok functions after)
    (emission : emitRoutines before.emission = .ok functions after.emission) :
    (after.withElements .routineFunctions functions).Shares set functions
      after.emission.routines.keys after.emission.numbers := by
  have ran := (progress.next (by decide) allowed).2.1
  have still := (produce_within .routineFunctions).ok made within
  have further := progress.produced allowed made
  obtain ⟨instructions, first, orderings, initial, written, ordered, -⟩ := moment_orderings found
  obtain ⟨size, same, requested⟩ := emitRoutines_complete found (equal.emission ▸ emission)
  rw [emitRoutines_eq] at emission
  -- Calls are written with the last numbers, as numbers that have been given stay.
  have numbered := after.emission.numbers_numbered
  have extended : reached.emission.Extends none after.emission :=
    equal.emission ▸ ((produce_resumes (by decide)).ok made).emission
  have earlier := ((produce_resumes (by decide)).ok ordered).emission
  have listed : after.emission.orderings = first.emission.orderings :=
    same.trans (earlier.shared rfl).1
  have marks (phase : Phase) :
      (after.withElements .routineFunctions functions).hasRun phase = true ↔
        before.hasRun phase = true ∨ phase = .routineFunctions := by
    rw [hasRun_withElements, Session.hasRun,
      ((produce_stays .routineFunctions).ok made).elements, Session.hasRun]
  constructor
  case listed =>
    exact further.lookup ((marks _).mpr (.inr rfl)) (progress.canonical allowed made)
  case functions =>
    have all := emitRoutinesWithin_are emission numbered
    rwa [List.drop_zero, List.take_of_length_le] at all
    rw [Ledger.keys, List.length_map, ← size]
    exact Nat.le_refl _
  case instructions =>
    refine ⟨instructions, further.lookup ((marks _).mpr (.inl ?_)) (canonical_of_ok rfl written),
      ?_⟩
    · exact (ran _ (by decide)).mpr (by decide)
    · rw [produce_instructionFunctions] at written
      exact emitInstructions_are written (numbered.earlier (earlier.trans extended))
  case orderings =>
    refine ⟨orderings, further.lookup ((marks _).mpr (.inl ?_))
      (canonical_of_ok initial ordered), ?_⟩
    · exact (ran _ (by decide)).mpr (by decide)
    · rw [produce_orderingFunctions, Run.emit_ok_iff] at ordered
      obtain ⟨_, ordered, rfl⟩ := ordered
      show List.Forall₂ _ after.emission.orderings.keys.zipIdx orderings
      rw [listed]
      exact emitOrderings_are ordered (numbered.earlier extended)
  case called => exact still.2.orderings
  case distinct => exact fun _ _ _ _ here there => still.2.unique here there
  case reachable => exact still.2.routines
  case numbered =>
    intro target reachable
    obtain ⟨routine, key, known, alike⟩ := requested target reachable
    exact numbers_found known alike

/-- Once instructions and unordered writes have their functions and all routines that the set
reaches translate, routines can be given theirs. -/
theorem Progress.shares {set : InstructionSet} {before : Session}
    (progress : Progress set before) (within : before.Within set)
    (allowed : checkPhase before .routineFunctions = .ok ())
    (translate : ∀ routine, Reachable set routine → Translates routine) :
    ∃ functions after routines numbers,
      produce .routineFunctions before = .ok functions after ∧
      (∀ fuel, functions.length < fuel →
        emitRoutinesWithin fuel 0 before.emission = .ok functions after.emission) ∧
      (after.withElements .routineFunctions functions).Shares set functions routines numbers := by
  obtain ⟨reached, found, equal⟩ := progress.matched within allowed translate
  obtain ⟨functions, after, made⟩ := produce_routineFunctions_ok within translate
  have emission : emitRoutines before.emission = .ok functions after.emission := by
    rw [produce_routineFunctions, Run.emit_ok_iff] at made
    obtain ⟨emission, made, rfl⟩ := made
    exact made
  have size := (emitRoutines_complete found (equal.emission ▸ emission)).1
  refine ⟨functions, after, _, _, made, fun fuel enough => ?_,
    progress.shares_of_ok within allowed found equal made emission⟩
  rw [emitRoutines_eq] at emission
  refine emitRoutinesWithin_ends emission ?_ enough
  simp [Ledger.key?, ← size, Ledger.size]

/-- Whatever has been asked of a session: once instructions and unordered writes have their
functions, and as long as all routines that the set reaches translate, the phase of routines
succeeds. Its loop ends by itself, behind as many rounds as there are functions, and these are
exactly one for each routine that is reached, up to sameness; all calls agree with them. -/
theorem routines_shared {set : InstructionSet} {verbose : Bool}
    {indent width budget basicBudget : Scalar} {settings : Settings}
    (made : Settings.make verbose indent width budget basicBudget = .ok settings)
    (calls : List Call)
    (allowed : checkPhase ((Session.start set settings).performAll calls) .routineFunctions =
      .ok ())
    (translate : ∀ routine, Reachable set routine → Translates routine) :
    ∃ block after functions routines numbers,
      runOne .routineFunctions ((Session.start set settings).performAll calls) =
        .ok block after ∧
      (∀ fuel, functions.length < fuel →
        emitRoutinesWithin fuel 0 ((Session.start set settings).performAll calls).emission =
          .ok functions after.emission) ∧
      after.Shares set functions routines numbers := by
  have wide := wide_of_make made
  obtain ⟨traced, -⟩ := (Traced.start set settings).performAll wide (.start set settings) calls
  have within := (start_within set settings).performAll calls
  generalize (Session.start set settings).performAll calls = before at *
  generalize line : "\t\tTranslating " ++ Phase.title .routineFunctions ++ "..." = announced
  have told : (before.tell announced).emission = before.emission := by rw [tell_frame]
  have inside : (before.tell announced).Within set := by
    rw [tell_frame]
    exact within
  have permitted : checkPhase (before.tell announced) .routineFunctions = .ok () :=
    (checkPhase_tell ..).trans allowed
  obtain ⟨functions, after, routines, numbers, produced, loop, shares⟩ :=
    (traced.tell announced).progress.shares inside permitted translate
  obtain ⟨chunks, printed⟩ := produce_prints produced
  rw [← (traced.tell announced).width, ← ((produce_stays _).ok produced).settings] at wide
  obtain ⟨block, rendered⟩ := render_succeeds after.settings.indent printed wide
  refine ⟨block, { after with
    elements := after.elements ++ [(.routineFunctions, functions)]
    blocks := after.blocks ++ [(.routineFunctions, block)] }, functions, routines, numbers,
    (runOne_ok_iff ..).mpr ⟨allowed, functions, after, line ▸ produced, rendered, rfl⟩,
    told ▸ loop, ?_⟩
  obtain ⟨listed, each, instructions, orderings, called, distinct, reachable, numbered⟩ := shares
  exact ⟨listed, each, instructions, orderings, called, distinct, reachable, numbered⟩

/-- An instruction that calls a routine through another one, and unordered writes that call the
same routine under another name. -/
def nestedSet : Except Failure InstructionSet := do
  let outer := Node.routine "outer" [.call immediateRoutine, .write (.literal (.number 1)) 8]
  let renamed := Node.routine "renamed" [.write (.param "imm0") 8]
  let first ← Instruction.make "add_r64_imm8" "add" "r64:rw; imm8:r"
    [.call outer, .branch (.param "rex_b") [.call immediateRoutine] []] [] [] [] []
  let second ← Instruction.make "nop" "nop" ""
    [.unordered [.call renamed, .write (.param "rex_x") 8] (.text Node.defaultOrder)] [] [] [] []
  InstructionSet.empty.addAll [first, second]

/-- Calls that ask for the functions of routines too early, twice. -/
def hastyCalls : List Call :=
  [.phase "called_funcs", .phase "inst_funcs", .phase "called_funcs", .phase "pref_funcs"]

/-- The routines of the set get their functions, also behind calls that have been refused. -/
theorem routines_of_nested : ∃ set block after functions routines numbers,
    nestedSet = .ok set ∧
    runOne .routineFunctions ((Session.start set .default).performAll hastyCalls) =
      .ok block after ∧
    after.Shares set functions routines numbers := by
  have evaluated : Results.passes (fun set =>
      (checkPhase ((Session.start set .default).performAll hastyCalls) .routineFunctions).isOk &&
        set.instructions.all fun instruction => allLeadToCode instruction.encoding)
      nestedSet = true := by
    decide +kernel
  obtain ⟨set, made, checked⟩ := Results.exists_ok evaluated
  simp only [Bool.and_eq_true, List.all_eq_true] at checked
  obtain ⟨ready, lead⟩ := checked
  have accepted : Settings.make false (.number 2) (.number 100) (.number 4) (.number 1) =
      .ok .default := rfl
  have allowed : checkPhase ((Session.start set .default).performAll hastyCalls)
      .routineFunctions = .ok () := by
    cases found : checkPhase ((Session.start set .default).performAll hastyCalls)
        .routineFunctions with
    | ok _ => rfl
    | error failure =>
      rw [found] at ready
      cases ready
  obtain ⟨block, after, functions, routines, numbers, ran, -, shares⟩ :=
    routines_shared accepted hastyCalls allowed fun _ reachable => reachable.translates lead
  exact ⟨set, block, after, functions, routines, numbers, made, ran, shares⟩

end EncoderTables.Generator
