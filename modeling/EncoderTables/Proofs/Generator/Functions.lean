import EncoderTables.Proofs.Generator.Writing

/-!
# Emitting shared functions

A shared function is emitted in three steps: it gets an emitter, its body is written, and
what the body reads is passed on to its callers. The emission is consistent behind each
function. The functions of unordered writes are those that instructions have requested;
the functions of routines are emitted until each requested one is, and the calls that are
left to be emitted bound how many are still to come.
-/

namespace EncoderTables.Generator

open Node Steps

/-- A function is made of what has been written, which changes nothing. -/
theorem encodingFunction_unchanged {comment : Code.Comment} {name code : String}
    {parameters : List Code.Element} {site : Site} {before after : Emission}
    {function : Code.Element}
    (made : encodingFunction comment name code parameters site before = .ok function after) :
    before = after := by
  simp only [encodingFunction, bind_ok_iff, get_ok_iff, pure_ok_iff] at made
  obtain ⟨_, _, ⟨-, read⟩, -, unchanged⟩ := made
  exact read.trans unchanged

/-- The function of an instruction has the effects of its encoding. -/
theorem instructionFunction_wrote {site : Site} {instruction : Instruction}
    {before after : Emission} {function : Code.Element}
    (made : instructionFunction site instruction before = .ok function after) :
    Wrote site (effectsAll instruction.encoding) before after := by
  simp only [instructionFunction, bind_ok_iff] at made
  obtain ⟨code, middle, written, rest⟩ := made
  exact encodingFunction_unchanged rest ▸ (action_wrote site).2 _ _ _ _ written

/-- The cases of unordered writes have the effects of all of them. -/
theorem orderedCases_wrote {site : Site} {index : Nat} {writes : List Node}
    {before after : Emission} {code : String}
    (made : orderedCases site index writes before = .ok code after) :
    Wrote site (effectsAll writes) before after := by
  induction writes generalizing index before after code with
  | nil =>
    simp only [orderedCases, pure_ok_iff] at made
    exact made.2 ▸ Wrote.refl site before
  | cons write rest inductionHypothesis =>
    simp only [orderedCases, bind_ok_iff, pure_ok_iff] at made
    obtain ⟨first, middle, written, others, last, remaining, -, rfl⟩ := made
    exact ((action_wrote site).1 _ _ _ _ written).append (inductionHypothesis remaining)

/-- The function of unordered writes has the effects of all of them. -/
theorem orderingFunction_wrote {site : Site} {writes : List Node} {id table : String}
    {before after : Emission} {function : Code.Element}
    (made : orderingFunction site writes id table before = .ok function after) :
    Wrote site (effectsAll writes) before after := by
  simp only [orderingFunction, bind_ok_iff] at made
  obtain ⟨code, middle, written, rest⟩ := made
  exact encodingFunction_unchanged rest ▸ orderedCases_wrote written

/-- The function of a routine has the effects of its actions. -/
theorem routineFunction_wrote {site : Site} {routine : Node} {id : String}
    {before after : Emission} {function : Code.Element}
    (made : routineFunction site routine id before = .ok function after) :
    Wrote site (effectsAll (routine.routineActions?.getD [])) before after := by
  cases routine with
  | routine name members =>
    simp only [routineFunction, bind_ok_iff] at made
    obtain ⟨code, middle, written, rest⟩ := made
    exact encodingFunction_unchanged rest ▸ (action_wrote site).2 _ _ _ _ written
  | _ => simp [routineFunction] at made

/-- The calls that several keys lead to, themselves included. -/
def callWeight (keys : List Node) : Nat := (keys.map fun key => 1 + callCount key).sum

/-- The weight of routines is at least their number. -/
theorem length_le_callWeight (keys : List Node) : keys.length ≤ callWeight keys := by
  induction keys with
  | nil => simp
  | cons key rest inductionHypothesis =>
    simp only [callWeight, List.map_cons, List.sum_cons, List.length_cons] at *
    omega

/-- An effect requests at most the routine that it calls. -/
theorem perform_routines (id : Nat) (emission : Emission) (effect : Effect) :
    ∃ new, (effect.perform id emission).routines.keys = emission.routines.keys ++ new ∧
      callWeight new ≤ effect.calls := by
  cases effect with
  | routine target =>
    have keys : ((emission.requestRoutine target id).2).routines.keys =
        (emission.routines.request target id).2.keys := by
      rw [Emission.requestRoutine_snd]
      cases emission.emitted.lookup (emission.routineId target id) with
      | none => rfl
      | some source =>
        have reshaped := Emission.mergeFrom_reshaped (emission.askRoutine target id) source id
        exact congrArg (fun emission => emission.routines.keys) reshaped.frame
    rcases emission.routines.keys_request target id with same | new
    · exact ⟨[], by simp [Effect.perform, keys, same], by simp [callWeight]⟩
    · exact ⟨[target], by simp [Effect.perform, keys, new], by simp [callWeight, Effect.calls]⟩
  | _ =>
    exact ⟨[], by simp [Effect.perform, Emission.update, Emission.requestOrdering],
      by simp [callWeight]⟩

/-- Effects request at most the routines that they call. -/
theorem performAll_routines (id : Nat) (effects : List Effect) (emission : Emission) :
    ∃ new, (Effect.performAll id effects emission).routines.keys =
        emission.routines.keys ++ new ∧
      callWeight new ≤ (effects.map Effect.calls).sum := by
  induction effects generalizing emission with
  | nil => exact ⟨[], by simp, by simp [callWeight]⟩
  | cons effect rest inductionHypothesis =>
    obtain ⟨first, grown, bounded⟩ := perform_routines id emission effect
    obtain ⟨others, further, small⟩ := inductionHypothesis (effect.perform id emission)
    refine ⟨first ++ others, ?_, ?_⟩
    · rw [Effect.performAll_cons, further, grown, List.append_assoc]
    · simp only [callWeight, List.map_append, List.sum_append, List.map_cons, List.sum_cons] at *
      omega

namespace Emission

/-- The body of a shared function requests no unordered writes. -/
theorem no_ordering {effects : List Effect} (admitted : ∀ effect ∈ effects, effect.Admitted none)
    (writes : List Node) : .ordering writes ∉ effects := by
  intro member
  simpa [Effect.Admitted] using admitted _ member

/-- The body of a new emitter has been written. Nothing is passed on yet to those who call
its function. -/
structure Written (place : Option Instruction × Callers) (before after : Emission) : Prop where
  consistent : after.Consistent (some before.emitters.length)
  settled : after.Settled none
  grown : before.Grown after
  places : after.places = before.places ++ [place]
  domains : ∀ id < before.emitters.length, after.domainsOf id = before.domainsOf id
  orderings : place.1 = none → after.orderings = before.orderings

/-- A body is written from the content of its place: for an instruction as long as there
are no shared functions, or for a function that has been requested. -/
theorem Consistent.body {before after : Emission} (consistent : before.Consistent none)
    (place : Option Instruction × Callers) {nodes : List Node}
    (owned : place.1.isSome = true → place.2 = .listed [] ∧ before.Unshared)
    (addressed : place.1 = none → ∃ actions, before.shared place.2 = some actions)
    (content : nodes = before.scope place)
    (wrote : Wrote ⟨before.emitters.length, place.1.map (·.name)⟩ (effectsAll nodes)
      (before.add (.fresh place.1 place.2)).2 after) :
    Written place before after ∧ after.emitted = before.emitted ∧
      ∃ new, after.routines.keys = before.routines.keys ++ new ∧
        callWeight new ≤ callCounts nodes := by
  have start := consistent.add (fun some => (owned some).1) addressed
  have domains := domainsOf_add before place.1 place.2
  have grown := add_grown before (.fresh place.1 place.2)
  have places : (before.add (.fresh place.1 place.2)).2.places = before.places ++ [place] := by
    simp [Emission.places, Emission.add, Emitter.fresh]
  have scope : (before.add (.fresh place.1 place.2)).2.scope = before.scope := rfl
  have emitted : (before.add (.fresh place.1 place.2)).2.emitted = before.emitted := rfl
  have orderings : (before.add (.fresh place.1 place.2)).2.orderings = before.orderings := rfl
  have routines : (before.add (.fresh place.1 place.2)).2.routines = before.routines := rfl
  generalize (before.add (.fresh place.1 place.2)).2 = added at *
  have found : added.places[before.emitters.length]? = some place := by
    rw [places, ← length_places, List.getElem?_concat_length]
  have alone : place.1.isSome = true → added.Unshared := by
    intro some other member
    rw [places, List.mem_append, List.mem_singleton] at member
    rcases member with old | rfl
    · exact (owned some).2 other old
    · exact some
  have here : added.scopeOf before.emitters.length = nodes := by
    rw [scopeOf, found, content, ← scope]
    rfl
  have owner : place.1.map (·.name) = added.ownerOf before.emitters.length := by
    rw [ownerOf, found]
    rfl
  obtain ⟨kept, settled, extended⟩ := start.wrote found owner alone (here.symm ▸ wrote)
  obtain ⟨rfl, admitted⟩ := wrote
  obtain ⟨moved, registered, requested⟩ := performAll_frame before.emitters.length
    (effectsAll nodes) added
  refine ⟨⟨kept, settled, grown.trans extended.grown, moved.trans places, ?_, ?_⟩,
    registered.trans emitted, ?_⟩
  · intro id inside
    rw [extended.domains id (Nat.ne_of_lt inside), domains]
  · intro unowned
    rw [unowned] at admitted
    exact (requested (no_ordering admitted)).trans orderings
  · obtain ⟨new, keys, bounded⟩ := performAll_routines before.emitters.length
      (effectsAll nodes) added
    exact ⟨new, routines ▸ keys, Nat.le_trans bounded (calls_effectsAll nodes)⟩

/-- Bodies at new places have been written and what they read has been passed on. -/
structure Emitted (added : List (Option Instruction × Callers)) (before after : Emission) :
    Prop where
  consistent : after.Consistent none
  grown : before.Grown after
  places : after.places = before.places ++ added
  domains : ∀ id < before.emitters.length, after.domainsOf id = before.domainsOf id
  orderings : (∀ place ∈ added, place.1 = none) → after.orderings = before.orderings

/-- No body has been written. -/
theorem Emitted.refl {emission : Emission} (consistent : emission.Consistent none) :
    Emitted [] emission emission :=
  ⟨consistent, .refl emission, by simp, fun _ _ => rfl, fun _ => rfl⟩

/-- Bodies after bodies. -/
theorem Emitted.trans {added further : List (Option Instruction × Callers)}
    {before middle after : Emission} (head : Emitted added before middle)
    (tail : Emitted further middle after) : Emitted (added ++ further) before after where
  consistent := tail.consistent
  grown := head.grown.trans tail.grown
  places := by rw [tail.places, head.places, List.append_assoc]
  domains id inside := by
    rw [tail.domains id (Nat.lt_of_lt_of_le inside head.grown.size_le), head.domains id inside]
  orderings unowned := by
    rw [tail.orderings fun place member => unowned place (List.mem_append_right _ member),
      head.orderings fun place member => unowned place (List.mem_append_left _ member)]

/-- Nobody calls the function of an instruction, so nothing is left to be passed on. -/
theorem Written.instruction {instruction : Instruction} {before after : Emission}
    (written : Written (some instruction, .listed []) before after) :
    Emitted [(some instruction, .listed [])] before after := by
  obtain ⟨⟨placed, recorded, closed, -⟩, settled, grown, places, domains, orderings⟩ := written
  have found : after.places[before.emitters.length]? = some (some instruction, .listed []) := by
    rw [places, ← length_places, List.getElem?_concat_length]
  refine ⟨⟨⟨placed.owned, placed.addressed, placed.covered, placed.located, ?_⟩, recorded, ?_,
    settled⟩, grown, places, domains, fun unowned => orderings (unowned _ List.mem_cons_self)⟩
  · intro id routine known
    refine .inr ((placed.registered id routine known).resolve_left fun here => ?_)
    rw [Option.some.inj here, found] at known
    simp at known
  · intro id caller calls
    refine .inr ((closed id caller calls).resolve_left fun here => ?_)
    rw [callersOf_eq, Option.some.inj here, found] at calls
    simp [callers] at calls

/-- The function of an address is known as that of its emitter, and what the emitter knows is
passed on to all callers. -/
theorem Written.finish {address : Callers} {before middle after : Emission}
    (written : Written (none, address) before middle)
    (registered : ∀ routine, address = .ofRoutine routine →
      middle.emitted.lookup routine = some before.emitters.length)
    {consumers : List Nat} (called : middle.callers address = consumers)
    (spread : consumers.foldl
      (fun emission caller => emission.mergeFrom before.emitters.length caller) middle = after) :
    Emitted [(none, address)] before after ∧ middle.Reshaped after := by
  subst called spread
  obtain ⟨⟨placed, recorded, closed, -⟩, settled, grown, places, domains, orderings⟩ := written
  have found : middle.places[before.emitters.length]? = some (none, address) := by
    rw [places, ← length_places, List.getElem?_concat_length]
  have callers : middle.callersOf before.emitters.length = middle.callers address := by
    rw [callersOf_eq, found]
    rfl
  have settles : ∀ id, ∀ caller ∈ middle.callersOf id, some id = some before.emitters.length →
      (id = before.emitters.length ∧ caller ∈ middle.callers address) ∨ False := by
    intro id caller calls here
    obtain rfl := Option.some.inj here
    exact .inl ⟨rfl, callers ▸ calls⟩
  obtain ⟨reshaped, further, unchanged, recorded, closed⟩ := spread_consistent _ placed recorded
    closed found (callers ▸ List.Subset.refl _) settles
  refine ⟨⟨⟨?_, recorded, ?_, ?_⟩, grown.trans further, reshaped.places.trans places, ?_, ?_⟩,
    reshaped⟩
  · have finished : middle.Placed none := by
      refine ⟨placed.owned, placed.addressed, placed.covered, placed.located, ?_⟩
      intro id routine known
      refine .inr ((placed.registered id routine known).elim (fun here => ?_) fun there => there)
      obtain rfl := Option.some.inj here
      rw [found, Option.some.injEq, Prod.mk.injEq] at known
      exact registered routine known.2
    exact finished.reshaped reshaped
  · intro id caller calls
    exact .inr ((closed id caller calls).resolve_left fun impossible => impossible)
  · exact settled.grown placed further reshaped.size_eq
  · intro id inside
    rw [unchanged, domains id inside]
  · intro _
    exact (congrArg Emission.orderings reshaped.frame).trans (orderings rfl)

end Emission

open Emission

/-- The functions of unordered writes are emitted one after the other. -/
theorem emitOrderings_emitted {id : Nat} {rest : List (List Node × List Nat)}
    {before after : Emission} {functions : List Code.Element}
    (consistent : before.Consistent none) (remaining : before.orderings.entries.drop id = rest)
    (made : emitOrderings id rest before = .ok functions after) :
    Emitted ((List.range' id rest.length).map fun ordering => (none, .ofOrdering ordering))
      before after ∧ after.emitted = before.emitted := by
  induction rest generalizing id before after functions with
  | nil =>
    simp only [emitOrderings, pure_ok_iff] at made
    obtain ⟨-, rfl⟩ := made
    exact ⟨.refl consistent, rfl⟩
  | cons entry rest inductionHypothesis =>
    obtain ⟨writes, consumers⟩ := entry
    obtain ⟨function, middle, others, written, further, -⟩ := emitOrderings_cons_ok_iff.mp made
    generalize spread : consumers.foldl (fun emission consumer =>
      emission.mergeFrom before.emitters.length consumer) middle = last at further
    have entry : before.orderings.entries[id]? = some (writes, consumers) := by
      have := congrArg List.head? remaining
      rwa [List.head?_drop] at this
    have known : before.shared (.ofOrdering id) = some writes := by
      simp [shared, Ledger.key?, entry]
    obtain ⟨body, fresh, -⟩ := consistent.body (none, .ofOrdering id) (by simp)
      (fun _ => ⟨writes, known⟩) (by simp [scope, known]) (orderingFunction_wrote written)
    have called : middle.callers (.ofOrdering id) = consumers := by
      simp [callers, body.orderings rfl, entry]
    obtain ⟨emitted, reshaped⟩ := body.finish (by simp) called spread
    have unchanged : last.orderings = before.orderings := emitted.orderings (by simp)
    obtain ⟨finished, same⟩ := inductionHypothesis emitted.consistent
      (by rw [unchanged, ← List.drop_drop, remaining]; rfl) further
    refine ⟨emitted.trans finished, ?_⟩
    exact same.trans ((congrArg Emission.emitted reshaped.frame).trans fresh)

/-- The emitter of a function is found once it has been set. -/
theorem lookup_setEmitted (called id : Nat) (known : List (Nat × Nat)) (routine : Nat) :
    (Emission.setEmitted called id known).lookup routine =
      if routine = called then some id else known.lookup routine := by
  induction known with
  | nil => rw [Emission.setEmitted, lookup_cons_ite]
  | cons entry rest inductionHypothesis =>
    obtain ⟨first, old⟩ := entry
    unfold Emission.setEmitted
    by_cases here : first = called
    · simp only [here, if_true, lookup_cons_ite]
      split <;> rfl
    · rw [if_neg here, lookup_cons_ite, inductionHypothesis, lookup_cons_ite]
      by_cases same : routine = first
      · rw [if_pos same, if_neg (same ▸ here), if_pos same]
      · rw [if_neg same, if_neg same]

/-- A function is registered while its body is the one that is being written. -/
theorem Emission.Written.register {routine : Nat} {before middle : Emission}
    (written : Written (none, .ofRoutine routine) before middle)
    (fresh : middle.emitted.lookup routine = none) :
    Written (none, .ofRoutine routine) before
      { middle with emitted := setEmitted routine before.emitters.length middle.emitted } := by
  obtain ⟨⟨placed, recorded, closed, settling⟩, settled, grown, places, domains, orderings⟩ :=
    written
  have found : middle.places[before.emitters.length]? = some (none, .ofRoutine routine) := by
    rw [places, ← length_places, List.getElem?_concat_length]
  refine ⟨⟨⟨placed.owned, placed.addressed, placed.covered, ?_, ?_⟩,
    ⟨recorded.sound, recorded.unique, recorded.plain⟩, closed, settling⟩, settled,
    ⟨grown.places, grown.orderings, grown.routines, grown.names⟩, places, domains, orderings⟩
  · intro other source known
    rw [lookup_setEmitted] at known
    split at known
    · next same =>
      obtain rfl := Option.some.inj known
      exact same ▸ found
    · exact placed.located other source known
  · intro id other known
    rw [lookup_setEmitted]
    rcases placed.registered id other known with here | there
    · exact .inl here
    · right
      rwa [if_neg]
      rintro rfl
      simp [fresh] at there

/-- The function of a requested routine is emitted, unless it has been already. It requests
fewer calls than it takes off the list. -/
theorem emitRoutine_emitted {id : Nat} {routine : Node} {before after : Emission}
    {function : Code.Element} (consistent : before.Consistent none)
    (requested : before.routines.key? id = some routine)
    (fresh : before.emitted.lookup id = none)
    (made : emitRoutine id routine before = .ok function after) :
    Emitted [(none, .ofRoutine id)] before after ∧
      (∀ other, after.emitted.lookup other =
        if other = id then some before.emitters.length else before.emitted.lookup other) ∧
      ∃ new, after.routines.keys = before.routines.keys ++ new ∧
        callWeight new ≤ callCount routine := by
  obtain ⟨middle, _, written, rfl, spread⟩ := emitRoutine_ok_iff.mp made
  have known : before.shared (.ofRoutine id) = some (routine.routineActions?.getD []) := by
    simp [shared, requested]
  obtain ⟨body, unchanged, new, keys, bounded⟩ := consistent.body
    (none, .ofRoutine id) (by simp) (fun _ => ⟨_, known⟩) (by simp [scope, known])
    (routineFunction_wrote written)
  have registered := body.register (unchanged ▸ fresh)
  have listed : ∀ other, Callers.ofRoutine id = .ofRoutine other →
      (setEmitted id before.emitters.length middle.emitted).lookup other =
        some before.emitters.length := by
    rintro other here
    rw [lookup_setEmitted, if_pos (Callers.ofRoutine.inj here).symm]
  obtain ⟨emitted, reshaped⟩ := registered.finish listed rfl spread
  have registry : after.emitted = setEmitted id before.emitters.length middle.emitted :=
    congrArg Emission.emitted reshaped.frame
  have routines : after.routines = middle.routines :=
    (congrArg Emission.routines reshaped.frame).trans rfl
  refine ⟨emitted, ?_, new, routines ▸ keys, Nat.le_trans bounded ?_⟩
  · intro other
    rw [registry, lookup_setEmitted, unchanged]
  · cases routine <;> simp [routineActions?, callCounts, callCount]

/-- The functions of routines are emitted until each requested one is: the calls that are
left outweigh what emitting one of them can request. -/
theorem emitRoutinesWithin_emitted {fuel id : Nat} {before after : Emission}
    {functions : List Code.Element} (consistent : before.Consistent none)
    (sofar : ∀ routine, (before.emitted.lookup routine).isSome = true ↔ routine < id)
    (enough : callWeight (before.routines.keys.drop id) < fuel)
    (made : emitRoutinesWithin fuel id before = .ok functions after) :
    (∃ added, (∀ place ∈ added, place.1 = none) ∧ Emitted added before after) ∧
      ∀ routine < after.routines.size, (after.emitted.lookup routine).isSome = true := by
  induction fuel generalizing id before functions with
  | zero => omega
  | succ fuel inductionHypothesis =>
    rcases emitRoutinesWithin_succ_ok_iff.mp made with
      ⟨free, -, rfl⟩ | ⟨routine, function, middle, others, requested, own, remaining, -⟩
    · refine ⟨⟨[], by simp, .refl consistent⟩, ?_⟩
      intro routine inside
      refine (sofar routine).mpr (Nat.lt_of_lt_of_le inside ?_)
      simpa [Ledger.key?, Ledger.size] using free
    · have fresh : before.emitted.lookup id = none := by
        cases known : before.emitted.lookup id with
        | none => rfl
        | some source => exact absurd ((sofar id).mp (by simp [known])) (Nat.lt_irrefl id)
      obtain ⟨emitted, registry, new, keys, bounded⟩ :=
        emitRoutine_emitted consistent requested fresh own
      have next : ∀ other, (middle.emitted.lookup other).isSome = true ↔ other < id + 1 := by
        intro other
        rw [registry]
        split
        · simp; omega
        · rw [sofar]; omega
      have lighter : callWeight (middle.routines.keys.drop (id + 1)) < fuel := by
        have listed : before.routines.keys[id]? = some routine := by
          rw [Ledger.keys, List.getElem?_map]
          exact requested
        obtain ⟨inside, here⟩ := List.getElem?_eq_some_iff.mp listed
        rw [List.drop_eq_getElem_cons inside, here] at enough
        rw [keys, List.drop_append_of_le_length inside, Nat.succ_eq_add_one]
        simp only [callWeight, List.map_append, List.sum_append, List.map_cons,
          List.sum_cons] at *
        omega
      obtain ⟨⟨added, unowned, finished⟩, complete⟩ :=
        inductionHypothesis emitted.consistent next lighter remaining
      refine ⟨⟨_, ?_, emitted.trans finished⟩, complete⟩
      intro place member
      rcases List.mem_append.mp member with first | later
      · rw [List.mem_singleton.mp first]
      · exact unowned place later

/-- The fuel for the functions of routines is more than the weight of the routines that have
been requested. -/
theorem callWeight_lt_fuel (entries : List (Node × List Nat)) :
    callWeight (entries.map (·.1)) <
      (entries.map fun entry => 1 + callCount entry.1).foldr (· + ·) 1 := by
  induction entries with
  | nil => simp [callWeight]
  | cons entry rest inductionHypothesis =>
    simp only [callWeight, List.map_cons, List.sum_cons, List.foldr_cons] at *
    omega

/-- The functions of all routines are emitted. -/
theorem emitRoutines_emitted {before after : Emission} {functions : List Code.Element}
    (consistent : before.Consistent none) (fresh : before.emitted = [])
    (made : emitRoutines before = .ok functions after) :
    (∃ added, (∀ place ∈ added, place.1 = none) ∧ Emitted added before after) ∧
      ∀ routine < after.routines.size, (after.emitted.lookup routine).isSome = true := by
  rw [emitRoutines_eq] at made
  exact emitRoutinesWithin_emitted consistent (by simp [fresh])
    (callWeight_lt_fuel before.routines.entries) made

end EncoderTables.Generator
