import EncoderTables.Proofs.Generator.Functions

/-!
# Complete emissions

Once the function of every requested routine and of all requested unordered writes has
been emitted, each emitter knows all that its actions read, in shared functions as well.
For shared functions this is an induction on the number of calls in them, which is smaller
in what is called; instructions then follow from the functions that they call.
-/

namespace EncoderTables.Generator

open Node

namespace Emission

/-- All functions that have been requested have been emitted. -/
structure Complete (emission : Emission) : Prop where
  consistent : emission.Consistent none
  routines : ∀ routine < emission.routines.size, (emission.emitted.lookup routine).isSome = true
  orderings : ∀ ordering < emission.orderings.size, ∃ id : Nat,
    emission.places[id]? = some (none, .ofOrdering ordering)

namespace Complete

variable {emission : Emission}

/-- The actions of a routine that has been requested are the body of its function. -/
theorem exists_routine (complete : emission.Complete) {routine : Nat} {key : Node}
    (known : emission.routines.key? routine = some key) :
    ∃ source, emission.places[source]? = some (none, .ofRoutine routine) ∧
      emission.scopeOf source = key.routineActions?.getD [] := by
  obtain ⟨entry, listed, -⟩ := Option.map_eq_some_iff.mp known
  obtain ⟨source, emitted⟩ := Option.isSome_iff_exists.mp
    (complete.routines routine (List.getElem?_eq_some_iff.mp listed).1)
  have found := complete.consistent.placed.located routine source emitted
  exact ⟨source, found, by simp [scopeOf, found, Emission.scope, shared, known]⟩

/-- Unordered writes that have been requested are the body of their function. -/
theorem exists_ordering (complete : emission.Complete) {ordering : Nat} {key : List Node}
    (known : emission.orderings.key? ordering = some key) :
    ∃ source, emission.places[source]? = some (none, .ofOrdering ordering) ∧
      emission.scopeOf source = key := by
  obtain ⟨entry, listed, -⟩ := Option.map_eq_some_iff.mp known
  obtain ⟨source, found⟩ := complete.orderings ordering (List.getElem?_eq_some_iff.mp listed).1
  exact ⟨source, found, by simp [scopeOf, found, Emission.scope, shared, known]⟩

/-- The caller of a routine knows what the routine's function knows. The function's actions
read what the called routine reads, and contain as many calls. -/
theorem routine_known (complete : emission.Complete) {id : Nat} {target : Node}
    (performed : emission.Performed id (.routine target)) :
    ∃ source address, emission.places[source]? = some (none, address) ∧
      emission.namesOf source ⊆ emission.namesOf id ∧
      readsAll (emission.scopeOf source) = reads (.call target) ∧
      callCounts (emission.scopeOf source) ≤ callCount target := by
  obtain ⟨routine, key, known, equal, calls⟩ := performed
  obtain ⟨source, found, scope⟩ := complete.exists_routine known
  refine ⟨source, _, found, ?_, ?_, ?_⟩
  · refine (complete.consistent.closed source id ?_).resolve_left (by simp)
    rw [callersOf_eq, found]
    exact calls
  · rw [scope, readsAll_routineActions]
    exact call_reads_eq_of_same equal
  · rw [scope, ← callCount_eq_of_same.1 key target equal]
    cases key <;> simp [routineActions?, callCounts, callCount]

/-- The caller of unordered writes knows what their function knows. -/
theorem ordering_known (complete : emission.Complete) {id : Nat} {writes : List Node}
    (performed : emission.Performed id (.ordering writes)) :
    ∃ source address, emission.places[source]? = some (none, address) ∧
      emission.namesOf source ⊆ emission.namesOf id ∧
      readsAll (emission.scopeOf source) = readsAll writes := by
  obtain ⟨ordering, key, known, equal, calls⟩ := performed
  obtain ⟨source, found, scope⟩ := complete.exists_ordering known
  refine ⟨source, _, found, ?_, ?_⟩
  · refine (complete.consistent.closed source id ?_).resolve_left (by simp)
    rw [callersOf_eq, found]
    exact calls
  · rw [scope]
    exact readsAll_eq_of_sameAll equal

/-- The emitter of a shared function knows all that its actions read, and so does the table
of parameters. -/
theorem shared_complete (complete : emission.Complete) {id : Nat} {address : Callers}
    (found : emission.places[id]? = some (none, address)) {name : String}
    (read : name ∈ readsAll (emission.scopeOf id)) :
    name ∈ emission.namesOf id ∧ Parameters.isKnown name = true := by
  induction size : callCounts (emission.scopeOf id) using Nat.strong_induction_on
    generalizing id address with
  | h calls inductionHypothesis =>
    obtain ⟨effect, member, stands⟩ := (mem_readsAll_iff ..).mp read
    obtain ⟨admitted, performed⟩ := complete.consistent.settled id (by simp) effect member
    have unowned : emission.ownerOf id = none := by
      rw [ownerOf, found]
      rfl
    cases effect with
    | use used =>
      obtain rfl := List.mem_singleton.mp stands
      exact ⟨performed, admitted⟩
    | ordering writes => simp [Effect.Admitted, unowned] at admitted
    | routine target =>
      obtain ⟨source, other, called, knows, reads, fewer⟩ := complete.routine_known performed
      have smaller := callCount_lt member
      have inside : name ∈ readsAll (emission.scopeOf source) := by
        rw [reads]
        exact stands
      obtain ⟨listed, known⟩ := inductionHypothesis _ (by omega) called inside rfl
      exact ⟨knows listed, known⟩
    | impose order items => simp [Effect.reads] at stands
    | fail => simp [Effect.reads] at stands

/-- Every emitter knows all that its actions read, and so does the table of parameters. -/
theorem read_known (complete : emission.Complete) {id : Nat} {name : String}
    (read : name ∈ readsAll (emission.scopeOf id)) :
    name ∈ emission.namesOf id ∧ Parameters.isKnown name = true := by
  obtain ⟨effect, member, stands⟩ := (mem_readsAll_iff ..).mp read
  obtain ⟨admitted, performed⟩ := complete.consistent.settled id (by simp) effect member
  cases effect with
  | use used =>
    obtain rfl := List.mem_singleton.mp stands
    exact ⟨performed, admitted⟩
  | ordering writes =>
    obtain ⟨source, address, found, knows, reads⟩ := complete.ordering_known performed
    obtain ⟨listed, known⟩ := complete.shared_complete found (by
      rw [reads]
      exact stands)
    exact ⟨knows listed, known⟩
  | routine target =>
    obtain ⟨source, address, found, knows, reads, -⟩ := complete.routine_known performed
    obtain ⟨listed, known⟩ := complete.shared_complete found (by
      rw [reads]
      exact stands)
    exact ⟨knows listed, known⟩
  | impose order items => simp [Effect.reads] at stands
  | fail => simp [Effect.reads] at stands

/-- Every emitter knows exactly what its actions read. -/
theorem mem_namesOf (complete : emission.Complete) (id : Nat) (name : String) :
    name ∈ emission.namesOf id ↔ name ∈ readsAll (emission.scopeOf id) :=
  ⟨fun known => complete.consistent.recorded.sound id known, fun read =>
    (complete.read_known read).1⟩

end Complete

end Emission

end EncoderTables.Generator
