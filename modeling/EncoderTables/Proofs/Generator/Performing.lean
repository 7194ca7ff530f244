import EncoderTables.Proofs.Generator.EffectReads
import EncoderTables.Proofs.Generator.Scopes

/-!
# Performing effects

What it means that an effect has been performed for an emitter: a parameter is recorded,
or the emitter is a caller of a function whose content is the requested one. An effect is
performed once it has been performed, and it stays so while the emission grows.
-/

namespace EncoderTables.Generator

open Node

namespace Emission

/-- An effect of the body of an emitter can be seen. -/
def Performed (emission : Emission) (id : Nat) : Effect → Prop
  | .use name => name ∈ emission.namesOf id
  | .ordering writes => ∃ ordering key, emission.orderings.key? ordering = some key ∧
      sameAll key writes = true ∧ id ∈ emission.callers (.ofOrdering ordering)
  | .routine target => ∃ routine key, emission.routines.key? routine = some key ∧
      same key target = true ∧ id ∈ emission.callers (.ofRoutine routine)
  | .impose .. | .fail => True

/-- What has been performed stays so. -/
theorem Performed.grown {before after : Emission} {id : Nat} {effect : Effect}
    (performed : before.Performed id effect) (grown : Grown before after) :
    after.Performed id effect := by
  cases effect with
  | use name => exact (grown.names id).subset performed
  | ordering writes =>
    obtain ⟨ordering, key, known, equal, calls⟩ := performed
    exact ⟨ordering, key, grown.orderings.key? known, equal, grown.callers _ calls⟩
  | routine target =>
    obtain ⟨routine, key, known, equal, calls⟩ := performed
    exact ⟨routine, key, grown.routines.key? known, equal, grown.callers _ calls⟩
  | impose order items => trivial
  | fail => trivial

/-- A caller has requested the function of an address, whose actions read certain
parameters: it is listed there, and nothing else has changed. -/
structure Asked (address : Callers) (names : List String) (caller : Nat)
    (before after : Emission) : Prop where
  emitters : after.emitters = before.emitters
  emitted : after.emitted = before.emitted
  grown : Grown before after
  listed : caller ∈ after.callers address
  content : ∃ actions, after.shared address = some actions ∧ readsAll actions = names
  only : ∀ other, ∀ former ∈ after.callers other,
    former ∈ before.callers other ∨ former = caller ∧ other = address


/-- A request leaves emitters at their places. -/
theorem Asked.places {address : Callers} {names : List String} {caller : Nat}
    {before after : Emission} (asked : Asked address names caller before after) :
    after.places = before.places := by
  rw [Emission.places, asked.emitters, Emission.places]

/-- A request records nothing about bodies. -/
theorem Asked.namesOf_eq {address : Callers} {names : List String} {caller : Nat}
    {before after : Emission} (asked : Asked address names caller before after) (id : Nat) :
    after.namesOf id = before.namesOf id := by
  rw [namesOf, asked.emitters, namesOf]

/-- A request imposes nothing. -/
theorem Asked.domainsOf_eq {address : Callers} {names : List String} {caller : Nat}
    {before after : Emission} (asked : Asked address names caller before after) (id : Nat) :
    after.domainsOf id = before.domainsOf id := by
  rw [domainsOf, asked.emitters, domainsOf]

/-- The request of a list of unordered writes. -/
theorem requestOrdering_asked (before : Emission) (writes : List Node) (caller : Nat) :
    Asked (.ofOrdering (before.requestOrdering writes caller).1) (readsAll writes) caller before
      (before.requestOrdering writes caller).2 where
  emitters := rfl
  emitted := rfl
  grown := ⟨List.prefix_rfl, before.orderings.request_grown writes caller, .refl _,
    fun _ => List.prefix_rfl⟩
  listed := by
    obtain ⟨key, consumers, entry, -⟩ := before.orderings.request_listed writes caller
    simp [callers, requestOrdering, entry]
  content := by
    obtain ⟨key, consumers, entry, equal⟩ := before.orderings.request_listed writes caller
    refine ⟨key, by simp [shared, requestOrdering, Ledger.key?, entry], ?_⟩
    exact readsAll_eq_of_sameAll (beq_eq_sameAll .. ▸ equal)
  only := by
    intro other former listed
    cases other with
    | listed emitters => exact .inl listed
    | ofOrdering id =>
      refine (Ledger.mem_consumersOf_request listed).imp_right ?_
      rintro ⟨new, here⟩
      exact ⟨new, congrArg Callers.ofOrdering here⟩
    | ofRoutine id => exact .inl listed

/-- The bare request of a routine, before anything is merged. -/
def askRoutine (emission : Emission) (routine : Node) (caller : Nat) : Emission :=
  { emission with routines := (emission.routines.request routine caller).2 }

/-- The id that the request of a routine gives. -/
def routineId (emission : Emission) (routine : Node) (caller : Nat) : Nat :=
  (emission.routines.request routine caller).1

/-- A request of a routine merges what a function that is emitted already has read. -/
theorem requestRoutine_snd (emission : Emission) (routine : Node) (caller : Nat) :
    (emission.requestRoutine routine caller).2 =
      match emission.emitted.lookup (emission.routineId routine caller) with
      | none => emission.askRoutine routine caller
      | some source => (emission.askRoutine routine caller).mergeFrom source caller := by
  rcases asked : emission.routines.request routine caller with ⟨called, routines⟩
  cases known : emission.emitted.lookup called <;>
    simp [requestRoutine, routineId, askRoutine, asked, known]

/-- A node is a routine or has no actions, and is called for what its actions read. -/
theorem readsAll_routineActions (node : Node) :
    readsAll (node.routineActions?.getD []) = reads (.call node) := by
  cases node <;> rfl

/-- The bare request of a routine. -/
theorem askRoutine_asked (before : Emission) (routine : Node) (caller : Nat) :
    Asked (.ofRoutine (before.routineId routine caller)) (reads (.call routine)) caller before
      (before.askRoutine routine caller) where
  emitters := rfl
  emitted := rfl
  grown := ⟨List.prefix_rfl, .refl _, before.routines.request_grown routine caller,
    fun _ => List.prefix_rfl⟩
  listed := by
    obtain ⟨key, consumers, entry, -⟩ := before.routines.request_listed routine caller
    simp [callers, askRoutine, routineId, entry]
  content := by
    obtain ⟨key, consumers, entry, equal⟩ := before.routines.request_listed routine caller
    refine ⟨key.routineActions?.getD [], ?_, ?_⟩
    · simp [shared, askRoutine, routineId, Ledger.key?, entry]
    · rw [readsAll_routineActions]
      exact call_reads_eq_of_same equal
  only := by
    intro other former listed
    cases other with
    | listed emitters => exact .inl listed
    | ofOrdering id => exact .inl listed
    | ofRoutine id =>
      refine (Ledger.mem_consumersOf_request listed).imp_right ?_
      rintro ⟨new, here⟩
      exact ⟨new, congrArg Callers.ofRoutine here⟩

end Emission

end EncoderTables.Generator
