import EncoderTables.Proofs.Generator.Consistency

/-!
# Writing bodies

The body of an emitter is written effect by effect. Each effect that the emitter's own
actions call for keeps the emission consistent up to this body and can be seen afterwards;
so once a body has been written, all of its effects can be seen.
-/

namespace EncoderTables.Generator

open Node

namespace Emission

/-- No shared function has been emitted. -/
def Unshared (emission : Emission) : Prop := ∀ place ∈ emission.places, place.1.isSome = true

/-- An emission has grown while one body is being written: only this body may have imposed
further domains. -/
structure Extended (id : Nat) (before after : Emission) : Prop where
  grown : Grown before after
  domains : ∀ other, other ≠ id → after.domainsOf other = before.domainsOf other

/-- No body has been written. -/
theorem Extended.refl (id : Nat) (emission : Emission) : Extended id emission emission :=
  ⟨.refl emission, fun _ _ => rfl⟩

/-- More of the same body. -/
theorem Extended.trans {id : Nat} {before middle after : Emission}
    (head : Extended id before middle) (tail : Extended id middle after) :
    Extended id before after :=
  ⟨head.grown.trans tail.grown, fun other distinct =>
    (tail.domains other distinct).trans (head.domains other distinct)⟩

/-- A change of an emitter that leaves it at its place. -/
theorem places_update (emission : Emission) (id : Nat) {change : Emitter → Emitter}
    (placed : ∀ other, (change other).instruction = other.instruction ∧
      (change other).callers = other.callers) :
    (emission.update id change).places = emission.places := by
  apply List.ext_getElem?
  intro other
  rw [getElem?_places, getElem?_places, getElem?_update]
  split
  · cases emission.emitters[other]? <;> simp [placed]
  · rfl

/-- What is known in the place of an emitter is what the emitter knows. -/
theorem namesOf_of_emitter {before : Emission} {id : Nat} {emitter : Emitter}
    (found : before.emitters[id]? = some emitter) : before.namesOf id = emitter.parameters := by
  rw [namesOf, found]
  rfl

/-- What an emitter knows behind a change is what the changed emitter does. -/
theorem namesOf_change {before : Emission} {id : Nat} {emitter : Emitter}
    (found : before.emitters[id]? = some emitter) (change : Emitter → Emitter) :
    (before.update id change).namesOf id = (change emitter).parameters := by
  rw [namesOf, getElem?_update, if_pos rfl, found]
  rfl

/-- Other emitters are left as they are. -/
theorem unchanged_update (before : Emission) {id other : Nat} (distinct : other ≠ id)
    (change : Emitter → Emitter) :
    (before.update id change).namesOf other = before.namesOf other ∧
      (before.update id change).domainsOf other = before.domainsOf other := by
  rw [namesOf, namesOf, domainsOf, domainsOf, getElem?_update, if_neg (Ne.symm distinct)]
  exact ⟨rfl, rfl⟩

/-- What is recorded of emitters stays in order when one of them is changed to record parameters
that its actions read, and no domains if it is shared. -/
theorem Recorded.update {before : Emission} {id : Nat} {emitter : Emitter}
    (recorded : before.Recorded) (found : before.emitters[id]? = some emitter)
    {change : Emitter → Emitter} (reshaped : before.Reshaped (before.update id change))
    (sound : (change emitter).parameters ⊆ readsAll (before.scopeOf id))
    (unique : (change emitter).parameters.Nodup)
    (plain : emitter.instruction = none → (change emitter).domains = emitter.domains) :
    (before.update id change).Recorded where
  sound other := by
    rw [reshaped.scopeOf_eq]
    by_cases same : other = id
    · rw [same, namesOf_change found]
      exact sound
    · rw [(unchanged_update before same change).1]
      exact recorded.sound other
  unique other := by
    by_cases same : other = id
    · rw [same, namesOf_change found]
      exact unique
    · rw [(unchanged_update before same change).1]
      exact recorded.unique other
  plain other address located := by
    rw [reshaped.places] at located
    have nothing := recorded.plain other address located
    by_cases same : other = id
    · subst same
      rw [getElem?_places, found] at located
      have unowned : emitter.instruction = none := by
        simpa using congrArg (·.map Prod.fst) located
      simpa [domainsOf, getElem?_update, found, plain unowned] using nothing
    · rw [(unchanged_update before same change).2]
      exact nothing

/-- A change of the emitter whose body is being written, which leaves it at its place and
records parameters that its actions read. -/
theorem Consistent.update {before : Emission} {id : Nat} {emitter : Emitter}
    (consistent : before.Consistent (some id)) (found : before.emitters[id]? = some emitter)
    (change : Emitter → Emitter)
    (placed : ∀ other, (change other).instruction = other.instruction ∧
      (change other).callers = other.callers)
    (more : emitter.parameters <+: (change emitter).parameters)
    (sound : (change emitter).parameters ⊆ readsAll (before.scopeOf id))
    (unique : (change emitter).parameters.Nodup)
    (plain : emitter.instruction = none → (change emitter).domains = emitter.domains) :
    (before.update id change).Consistent (some id) ∧
      Extended id before (before.update id change) := by
  have reshaped : before.Reshaped (before.update id change) := ⟨rfl, places_update _ _ placed⟩
  have grown : before.Grown (before.update id change) := by
    refine reshaped.grown fun other => ?_
    by_cases same : other = id
    · rw [same, namesOf_change found, namesOf_of_emitter found]
      exact more
    · rw [(unchanged_update before same change).1]
  have recorded := consistent.recorded.update found reshaped sound unique plain
  refine ⟨⟨consistent.placed.reshaped reshaped, recorded, ?_, ?_⟩, grown,
    fun other distinct => (unchanged_update before distinct change).2⟩
  · intro other caller calls
    rw [reshaped.callersOf_eq] at calls
    by_cases same : other = id
    · exact .inl (congrArg some same)
    · rw [(unchanged_update before same change).1]
      refine (consistent.closed other caller calls).imp_right fun known => ?_
      exact List.Subset.trans known (grown.names caller).subset
  · exact consistent.settled.grown consistent.placed grown reshaped.size_eq

/-- The parameters of an emitter that records the use of one. -/
theorem parameters_use (emitter : Emitter) (name : String) :
    (emitter.use name).parameters =
      emitter.parameters ++ missingNames emitter.parameters [name] := by
  unfold Emitter.use
  split <;> simp_all [missingNames]

/-- A parameter is recorded for the body that is being written. -/
theorem Consistent.use {before : Emission} {id : Nat} {place : Option Instruction × Callers}
    (consistent : before.Consistent (some id)) (found : before.places[id]? = some place)
    {name : String} (reads : name ∈ readsAll (before.scopeOf id)) :
    (before.update id (·.use name)).Consistent (some id) ∧
      Extended id before (before.update id (·.use name)) ∧
      (before.update id (·.use name)).Performed id (.use name) := by
  obtain ⟨emitter, known, -⟩ := getElem?_of_place found
  have former := namesOf_of_emitter known
  have sound := consistent.recorded.sound id
  have unique := consistent.recorded.unique id
  rw [former] at sound unique
  have stays (other : Emitter) : (other.use name).instruction = other.instruction ∧
      (other.use name).callers = other.callers ∧ (other.use name).domains = other.domains := by
    unfold Emitter.use
    split <;> exact ⟨rfl, rfl, rfl⟩
  have covered : (emitter.use name).parameters ⊆ readsAll (before.scopeOf id) := by
    intro other member
    rw [parameters_use, List.mem_append, mem_missingNames, List.mem_singleton] at member
    rcases member with old | ⟨rfl, -⟩
    · exact sound old
    · exact reads
  have distinct : (emitter.use name).parameters.Nodup := by
    rw [parameters_use]
    exact append_missingNames_nodup unique _
  obtain ⟨kept, grown⟩ := consistent.update known (·.use name)
    (fun other => ⟨(stays other).1, (stays other).2.1⟩) (by simp [parameters_use]) covered
    distinct fun _ => (stays emitter).2.2
  refine ⟨kept, grown, ?_⟩
  rw [Performed, namesOf_change known, parameters_use]
  simp [mem_missingNames, em]

/-- A domain is imposed, or a failure is recorded, for the body that is being written. -/
theorem Consistent.mark {before : Emission} {id : Nat} {place : Option Instruction × Callers}
    (consistent : before.Consistent (some id)) (found : before.places[id]? = some place)
    (change : Emitter → Emitter)
    (placed : ∀ other, (change other).instruction = other.instruction ∧
      (change other).callers = other.callers ∧ (change other).parameters = other.parameters)
    (plain : ∀ other, place.1 = none → (change other).domains = other.domains) :
    (before.update id change).Consistent (some id) ∧
      Extended id before (before.update id change) := by
  obtain ⟨emitter, known, owner⟩ := getElem?_of_place found
  have former := namesOf_of_emitter known
  have sound := consistent.recorded.sound id
  have unique := consistent.recorded.unique id
  rw [former, ← (placed emitter).2.2] at sound unique
  refine consistent.update known change (fun other => ⟨(placed other).1, (placed other).2.1⟩) ?_
    sound unique fun unowned => plain emitter (owner ▸ unowned)
  rw [(placed emitter).2.2]

/-- Unordered writes are requested for the body of an instruction, at a time when there
are no other bodies. -/
theorem Consistent.ordering {before : Emission} {id : Nat}
    (consistent : before.Consistent (some id)) (inside : id < before.emitters.length)
    (alone : before.Unshared)
    {writes : List Node} (reads : readsAll writes ⊆ readsAll (before.scopeOf id)) :
    (before.requestOrdering writes id).2.Consistent (some id) ∧
      Extended id before (before.requestOrdering writes id).2 ∧
      (before.requestOrdering writes id).2.Performed id (.ordering writes) := by
  have asked := requestOrdering_asked before writes id
  refine ⟨⟨consistent.placed.asked asked inside reads,
    consistent.recorded.asked consistent.placed asked, ?_, ?_⟩,
    ⟨asked.grown, fun other _ => asked.domainsOf_eq other⟩, ?_⟩
  · intro other caller calls
    rcases consistent.closed.asked asked other caller calls with (here | ⟨-, owner, found⟩) | known
    · exact .inl here
    · have owned := consistent.placed.owned other
      cases owner with
      | none => simpa using alone _ (List.mem_of_getElem? found)
      | some instruction => exact absurd (owned instruction _ found) (by simp)
    · exact .inr known
  · exact consistent.settled.grown consistent.placed asked.grown (by rw [asked.emitters])
  · obtain ⟨key, consumers, entry, equal⟩ := before.orderings.request_listed writes id
    refine ⟨_, key, ?_, beq_eq_sameAll .. ▸ equal, asked.listed⟩
    simp [requestOrdering, Ledger.key?, entry]

/-- A routine is requested for the body that is being written, and what its function reads
is merged if it has been emitted. -/
theorem Consistent.routine {before : Emission} {id : Nat}
    (consistent : before.Consistent (some id)) (inside : id < before.emitters.length)
    {target : Node} (reads : Node.reads (.call target) ⊆ readsAll (before.scopeOf id)) :
    (before.requestRoutine target id).2.Consistent (some id) ∧
      Extended id before (before.requestRoutine target id).2 ∧
      (before.requestRoutine target id).2.Performed id (.routine target) := by
  have asked := askRoutine_asked before target id
  set middle := before.askRoutine target id with middle_eq
  have placed := consistent.placed.asked asked inside reads
  have recorded := consistent.recorded.asked consistent.placed asked
  have closed := consistent.closed.asked asked
  have settled := consistent.settled.grown consistent.placed asked.grown (by rw [asked.emitters])
  have seen : middle.Performed id (.routine target) := by
    obtain ⟨key, consumers, entry, equal⟩ := before.routines.request_listed target id
    refine ⟨_, key, ?_, equal, asked.listed⟩
    simp [middle_eq, askRoutine, routineId, Ledger.key?, entry]
  have places : middle.places = before.places := rfl
  -- Only the emitter of the routine, if there is one, gets a new caller.
  have owner : ∀ other, (∃ place, before.places[other]? =
      some (place, .ofRoutine (before.routineId target id))) →
      some other = some id ∨
        before.emitted.lookup (before.routineId target id) = some other := by
    rintro other ⟨instruction | instruction, found⟩
    · exact consistent.placed.registered other _ found
    · exact absurd (consistent.placed.owned other instruction _ found) (by simp)
  rw [requestRoutine_snd]
  cases known : before.emitted.lookup (before.routineId target id) with
  | none =>
    refine ⟨⟨placed, recorded, ?_, settled⟩,
      ⟨asked.grown, fun other _ => asked.domainsOf_eq other⟩, seen⟩
    intro other caller calls
    rcases closed other caller calls with (here | ⟨-, found⟩) | contained
    · exact .inl here
    · exact .inl ((owner other found).resolve_right (by simp [known]))
    · exact .inr contained
  | some source =>
    have located := consistent.placed.located _ source known
    have calls : [id] ⊆ middle.callersOf source := by
      rw [callersOf_eq, places, located]
      simpa using asked.listed
    have spread := spread_consistent (fun other _ => some other = some id) placed recorded closed
      (places ▸ located) calls ?_
    · obtain ⟨reshaped, grown, domains, recorded, closed⟩ := spread
      refine ⟨⟨placed.reshaped reshaped, recorded, closed,
        settled.grown placed grown reshaped.size_eq⟩, ⟨asked.grown.trans grown, ?_⟩,
        seen.grown grown⟩
      exact fun other _ => (domains other).trans (asked.domainsOf_eq other)
    · rintro other caller - (here | ⟨rfl, found⟩)
      · exact .inr here
      · rcases owner other found with here | listed
        · exact .inr here
        · obtain rfl := Option.some.inj (known.symm.trans listed)
          exact .inl ⟨rfl, by simp⟩

/-- Merging from one emitter into another leaves all at their places. -/
theorem mergeFrom_reshaped (emission : Emission) (source target : Nat) :
    emission.Reshaped (emission.mergeFrom source target) := by
  unfold mergeFrom
  cases emission.emitters[source]? with
  | none => exact ⟨rfl, rfl⟩
  | some emitter => exact (mergeWithin_merged ..).reshaped

/-- A request of a routine only records who calls it and what is read. -/
theorem requestRoutine_frame (emission : Emission) (target : Node) (id : Nat) :
    (emission.requestRoutine target id).2.places = emission.places ∧
      (emission.requestRoutine target id).2.emitted = emission.emitted ∧
      (emission.requestRoutine target id).2.orderings = emission.orderings := by
  rw [requestRoutine_snd]
  cases emission.emitted.lookup (emission.routineId target id) with
  | none => exact ⟨rfl, rfl, rfl⟩
  | some source =>
    have reshaped := mergeFrom_reshaped (emission.askRoutine target id) source id
    refine ⟨reshaped.places, ?_, ?_⟩
    · exact (congrArg Emission.emitted reshaped.frame).trans rfl
    · exact (congrArg Emission.orderings reshaped.frame).trans rfl

/-- A parameter keeps an emitter where it is. -/
theorem place_use (emitter : Emitter) (name : String) :
    (emitter.use name).instruction = emitter.instruction ∧
      (emitter.use name).callers = emitter.callers := by
  unfold Emitter.use
  split <;> exact ⟨rfl, rfl⟩

/-- Effects neither move emitters nor register functions, and only one that requests
unordered writes changes what is known about them. -/
theorem perform_frame (id : Nat) (emission : Emission) (effect : Effect) :
    (effect.perform id emission).places = emission.places ∧
      (effect.perform id emission).emitted = emission.emitted ∧
      ((∀ writes, effect ≠ .ordering writes) →
        (effect.perform id emission).orderings = emission.orderings) := by
  cases effect with
  | use name => exact ⟨places_update _ _ (place_use · name), rfl, fun _ => rfl⟩
  | impose order items => exact ⟨places_update _ _ fun _ => ⟨rfl, rfl⟩, rfl, fun _ => rfl⟩
  | fail => exact ⟨places_update _ _ fun _ => ⟨rfl, rfl⟩, rfl, fun _ => rfl⟩
  | ordering writes => exact ⟨rfl, rfl, fun other => absurd rfl (other writes)⟩
  | routine target =>
    obtain ⟨places, emitted, orderings⟩ := requestRoutine_frame emission target id
    exact ⟨places, emitted, fun _ => orderings⟩

/-- The same for several effects. -/
theorem performAll_frame (id : Nat) (effects : List Effect) (emission : Emission) :
    (Effect.performAll id effects emission).places = emission.places ∧
      (Effect.performAll id effects emission).emitted = emission.emitted ∧
      ((∀ writes, .ordering writes ∉ effects) →
        (Effect.performAll id effects emission).orderings = emission.orderings) := by
  induction effects generalizing emission with
  | nil => exact ⟨rfl, rfl, fun _ => rfl⟩
  | cons effect rest inductionHypothesis =>
    obtain ⟨places, emitted, orderings⟩ := perform_frame id emission effect
    obtain ⟨others, registered, requested⟩ :=
      inductionHypothesis (effect.perform id emission)
    refine ⟨others.trans places, registered.trans emitted, fun without => ?_⟩
    refine (requested fun writes member => without writes (List.mem_cons_of_mem _ member)).trans
      (orderings ?_)
    rintro writes rfl
    exact without writes List.mem_cons_self

/-- An admitted effect that the emitter's actions call for is performed. -/
theorem Consistent.perform {before : Emission} {id : Nat}
    (consistent : before.Consistent (some id)) {place : Option Instruction × Callers}
    (found : before.places[id]? = some place) {effect : Effect}
    (admitted : effect.Admitted (before.ownerOf id))
    (reads : effect.reads ⊆ readsAll (before.scopeOf id))
    (alone : place.1.isSome = true → before.Unshared) :
    (effect.perform id before).Consistent (some id) ∧
      Extended id before (effect.perform id before) ∧
      (effect.perform id before).Performed id effect := by
  have inside : id < before.emitters.length := by
    rw [← length_places]
    exact (List.getElem?_eq_some_iff.mp found).1
  have owned : (before.ownerOf id).isSome = place.1.isSome := by
    simp [ownerOf, found]
  cases effect with
  | use name => exact consistent.use found (reads (by simp [Effect.reads]))
  | impose order items =>
    obtain ⟨kept, grown⟩ := consistent.mark found (·.impose order (Effect.orders items))
      (fun other => ⟨rfl, rfl, rfl⟩) fun other unowned => by
        rw [unowned] at owned
        simp [Effect.Admitted, owned] at admitted
    exact ⟨kept, grown, trivial⟩
  | fail =>
    obtain ⟨kept, grown⟩ := consistent.mark found
      (fun emitter => { emitter with canFail := true }) (fun other => ⟨rfl, rfl, rfl⟩)
      fun other _ => rfl
    exact ⟨kept, grown, trivial⟩
  | ordering writes => exact consistent.ordering inside (alone (owned ▸ admitted.1)) reads
  | routine target => exact consistent.routine inside reads

/-- Admitted effects that the emitter's actions call for are performed one after the
other. -/
theorem Consistent.performAll {before : Emission} {id : Nat}
    (consistent : before.Consistent (some id)) {place : Option Instruction × Callers}
    (found : before.places[id]? = some place) {effects : List Effect}
    (admitted : ∀ effect ∈ effects, effect.Admitted (before.ownerOf id))
    (reads : ∀ effect ∈ effects, effect.reads ⊆ readsAll (before.scopeOf id))
    (alone : place.1.isSome = true → before.Unshared) :
    (Effect.performAll id effects before).Consistent (some id) ∧
      Extended id before (Effect.performAll id effects before) ∧
      ∀ effect ∈ effects, (Effect.performAll id effects before).Performed id effect := by
  induction effects generalizing before with
  | nil => exact ⟨consistent, .refl id before, by simp⟩
  | cons effect rest inductionHypothesis =>
    obtain ⟨kept, extended, seen⟩ := consistent.perform found (admitted effect List.mem_cons_self)
      (reads effect List.mem_cons_self) alone
    have inside : id < before.emitters.length := by
      rw [← length_places]
      exact (List.getElem?_eq_some_iff.mp found).1
    have places := (perform_frame id before effect).1
    obtain ⟨finished, further, others⟩ := inductionHypothesis kept (places ▸ found)
      (by rw [extended.grown.ownerOf_eq inside]
          exact fun other member => admitted other (List.mem_cons_of_mem _ member))
      (by rw [consistent.placed.scopeOf_eq extended.grown inside]
          exact fun other member => reads other (List.mem_cons_of_mem _ member))
      (fun owned => by rw [Unshared, places]; exact alone owned)
    refine ⟨finished, extended.trans further, ?_⟩
    intro other member
    rcases List.mem_cons.mp member with rfl | member
    · exact seen.grown further.grown
    · exact others other member

/-- A body that has been written completely has all its effects admitted and performed. -/
theorem Consistent.wrote {before after : Emission} {site : Site}
    (consistent : before.Consistent (some site.emitter))
    {place : Option Instruction × Callers}
    (found : before.places[site.emitter]? = some place)
    (owner : site.instruction = before.ownerOf site.emitter)
    (alone : place.1.isSome = true → before.Unshared)
    (wrote : Wrote site (effectsAll (before.scopeOf site.emitter)) before after) :
    after.Consistent (some site.emitter) ∧ after.Settled none ∧
      Extended site.emitter before after := by
  obtain ⟨rfl, admitted⟩ := wrote
  rw [owner] at admitted
  obtain ⟨kept, extended, seen⟩ := consistent.performAll found admitted
    (fun effect member name read => (mem_readsAll_iff ..).mpr ⟨effect, member, read⟩) alone
  refine ⟨kept, ?_, extended⟩
  have inside : site.emitter < before.emitters.length := by
    rw [← length_places]
    exact (List.getElem?_eq_some_iff.mp found).1
  intro id _ effect member
  by_cases here : id = site.emitter
  · subst here
    rw [consistent.placed.scopeOf_eq extended.grown inside] at member
    rw [extended.grown.ownerOf_eq inside]
    exact ⟨admitted effect member, seen effect member⟩
  · exact kept.settled id (by simpa using here) effect member

end Emission

end EncoderTables.Generator
