import EncoderTables.Proofs.Generator.Performing

/-!
# Consistent emissions

What holds of an emission at every moment: addresses and emitters refer to each other, an
emitter knows nothing but what its actions read, shared functions impose nothing, and a
caller knows all that the functions it calls know. The last law and the completeness of
what is recorded exclude the one body that is being written.
-/

namespace EncoderTables.Generator

open Node

namespace Emission

/-- Emitters and addresses refer to each other. The function that is being written may
not have been registered yet. -/
structure Placed (emission : Emission) (writing : Option Nat) : Prop where
  owned : ∀ (id : Nat) (instruction : Instruction) (address : Callers),
    emission.places[id]? = some (some instruction, address) → address = .listed []
  addressed : ∀ (id : Nat) (address : Callers), emission.places[id]? = some (none, address) →
    ∃ actions, emission.shared address = some actions
  covered : ∀ address actions, emission.shared address = some actions →
    ∀ caller ∈ emission.callers address, caller < emission.emitters.length ∧
      readsAll actions ⊆ readsAll (emission.scopeOf caller)
  located : ∀ routine source, emission.emitted.lookup routine = some source →
    emission.places[source]? = some (none, .ofRoutine routine)
  registered : ∀ (id routine : Nat), emission.places[id]? = some (none, .ofRoutine routine) →
    some id = writing ∨ emission.emitted.lookup routine = some id

/-- What emitters know is read by their actions, once each, and only the bodies of
instructions impose domains. -/
structure Recorded (emission : Emission) : Prop where
  sound : ∀ id, emission.namesOf id ⊆ readsAll (emission.scopeOf id)
  unique : ∀ id, (emission.namesOf id).Nodup
  plain : ∀ (id : Nat) (address : Callers), emission.places[id]? = some (none, address) →
    emission.domainsOf id = []

/-- Callers know what the functions that they call know, up to calls that are pending. -/
def Closed (emission : Emission) (pending : Nat → Nat → Prop) : Prop :=
  ∀ id, ∀ caller ∈ emission.callersOf id,
    pending id caller ∨ emission.namesOf id ⊆ emission.namesOf caller

/-- The name of the instruction that an emitter belongs to. -/
def ownerOf (emission : Emission) (id : Nat) : Option String :=
  (emission.places[id]?.bind (·.1)).map (·.name)

/-- All effects of all bodies were admitted and have been performed, up to the body that is
being written. -/
def Settled (emission : Emission) (writing : Option Nat) : Prop :=
  ∀ id, some id ≠ writing → ∀ effect ∈ effectsAll (emission.scopeOf id),
    effect.Admitted (emission.ownerOf id) ∧ emission.Performed id effect

namespace Placed

variable {emission : Emission} {writing : Option Nat}

/-- An emitter with callers belongs to a shared function, which its callers cover. -/
theorem caller_covered (placed : emission.Placed writing) {id caller : Nat}
    (calls : caller ∈ emission.callersOf id) :
    ∃ address, emission.places[id]? = some (none, address) ∧
      caller ∈ emission.callers address ∧ caller < emission.emitters.length ∧
      readsAll (emission.scopeOf id) ⊆ readsAll (emission.scopeOf caller) := by
  rw [callersOf_eq] at calls
  cases found : emission.places[id]? with
  | none => simp [found] at calls
  | some place =>
    obtain ⟨instruction | instruction, address⟩ := place
    · simp only [found, Option.map_some, Option.getD_some] at calls
      obtain ⟨actions, known⟩ := placed.addressed id address found
      obtain ⟨inside, reads⟩ := placed.covered address actions known caller calls
      refine ⟨address, rfl, calls, inside, ?_⟩
      simpa [scopeOf, found, scope, known] using reads
    · have none := placed.owned id instruction address found
      simp [found, none, callers] at calls

/-- Callers are emitters. -/
theorem wired (placed : emission.Placed writing) : emission.Wired := by
  intro id caller calls
  obtain ⟨-, -, -, inside, -⟩ := placed.caller_covered calls
  exact inside

/-- Calls lead to where all is read that is read where they come from. -/
theorem reads_of_reaches (placed : emission.Placed writing) {id other : Nat}
    (led : emission.Reaches id other) :
    readsAll (emission.scopeOf id) ⊆ readsAll (emission.scopeOf other) := by
  induction led with
  | refl => exact List.Subset.refl _
  | tail _ calls inductionHypothesis =>
    obtain ⟨-, -, -, -, reads⟩ := placed.caller_covered calls
    exact List.Subset.trans inductionHypothesis reads

/-- Emitters and addresses do not depend on what is known about the bodies. -/
theorem reshaped {before after : Emission} (placed : before.Placed writing)
    (reshaped : before.Reshaped after) : after.Placed writing where
  owned := by
    rw [reshaped.places]
    exact placed.owned
  addressed := by
    simp only [reshaped.places, reshaped.shared_eq]
    exact placed.addressed
  covered := by
    simp only [reshaped.shared_eq, reshaped.callers_eq, reshaped.scopeOf_eq, reshaped.size_eq]
    exact placed.covered
  located := by
    rw [reshaped.places, reshaped.frame]
    exact placed.located
  registered := by
    rw [reshaped.places, reshaped.frame]
    exact placed.registered

end Placed

/-- The emitter at a place. -/
theorem getElem?_of_place {emission : Emission} {id : Nat}
    {place : Option Instruction × Callers} (found : emission.places[id]? = some place) :
    ∃ emitter, emission.emitters[id]? = some emitter ∧ emitter.instruction = place.1 := by
  rw [getElem?_places] at found
  obtain ⟨emitter, known, same⟩ := Option.map_eq_some_iff.mp found
  exact ⟨emitter, known, congrArg Prod.fst same⟩

/-- A function that is called has imposed nothing. -/
theorem Recorded.keysOf_eq_nil {emission : Emission} {writing : Option Nat}
    (recorded : emission.Recorded) (placed : emission.Placed writing) {id caller : Nat}
    (calls : caller ∈ emission.callersOf id) : emission.keysOf id = [] := by
  obtain ⟨address, found, -⟩ := placed.caller_covered calls
  rw [keysOf_eq, recorded.plain id address found]
  rfl

/-- A merge of names that are read wherever it leads keeps what is recorded. -/
theorem Recorded.merged {region : Nat → Prop} {names : List String} {before after : Emission}
    (recorded : before.Recorded) (merged : Merged region names [] before after)
    (reads : ∀ id, region id → names ⊆ readsAll (before.scopeOf id)) : after.Recorded where
  sound := by
    intro id name member
    rw [merged.reshaped.scopeOf_eq]
    rcases (merged.mem_namesOf id).2 name member with old | ⟨given, here⟩
    · exact recorded.sound id old
    · exact reads id here given
  unique := by
    intro id
    have former := recorded.unique id
    unfold namesOf at former ⊢
    cases found : before.emitters[id]? with
    | none =>
      simp [merged.outside found]
    | some emitter =>
      obtain ⟨added, given, reached, -⟩ := merged.absorbed id emitter found
      simp only [found, Option.map_some, Option.getD_some] at former
      simpa [reached, Emitter.absorb] using append_missingNames_nodup former added
  plain := by
    intro id address found
    rw [merged.reshaped.places] at found
    rw [merged.domainsOf_eq]
    exact recorded.plain id address found

/-- What a shared function has read is passed on to callers of it. Their calls are pending
no longer. -/
theorem spread_consistent {before : Emission} {writing : Option Nat}
    {pending : Nat → Nat → Prop} (further : Nat → Nat → Prop) (placed : before.Placed writing)
    (recorded : before.Recorded) (closed : before.Closed pending) {source : Nat}
    {address : Callers} (found : before.places[source]? = some (none, address))
    {targets : List Nat} (calls : targets ⊆ before.callersOf source)
    (settles : ∀ id, ∀ caller ∈ before.callersOf id, pending id caller →
      (id = source ∧ caller ∈ targets) ∨ further id caller) :
    let after := targets.foldl (fun emission target => emission.mergeFrom source target) before
    before.Reshaped after ∧ before.Grown after ∧
      (∀ id, after.domainsOf id = before.domainsOf id) ∧ after.Recorded ∧
      after.Closed further := by
  intro after
  obtain ⟨emitter, known, -⟩ := getElem?_of_place found
  obtain ⟨merged, contains, keeps⟩ := spread_taught known placed.wired
    fun target member => placed.wired source target (calls member)
  have names : before.namesOf source = emitter.parameters := by simp [namesOf, known]
  have nothing : emitter.domains = [] := by
    simpa [domainsOf, known] using recorded.plain source address found
  rw [nothing] at merged
  refine ⟨merged.reshaped, merged.grown, merged.domainsOf_eq, recorded.merged merged ?_, ?_⟩
  · rintro id ⟨target, member, led⟩
    obtain ⟨-, -, -, -, reads⟩ := placed.caller_covered (calls member)
    rw [← names]
    exact List.Subset.trans (recorded.sound source)
      (List.Subset.trans reads (placed.reads_of_reaches led))
  · intro id caller listed
    rw [merged.callersOf_eq] at listed
    rcases closed id caller listed with waiting | contained
    · rcases settles id caller listed waiting with ⟨rfl, member⟩ | still
      · exact .inr (contains caller member).1
      · exact .inl still
    · refine .inr (keeps id caller listed ⟨contained, ?_⟩).1
      simp [recorded.keysOf_eq_nil placed listed]

/-- An emission is consistent up to the body that is being written. -/
structure Consistent (emission : Emission) (writing : Option Nat) : Prop where
  placed : emission.Placed writing
  recorded : emission.Recorded
  closed : emission.Closed fun id _ => some id = writing
  settled : emission.Settled writing

/-- Emitters stay in charge of their actions. -/
theorem Placed.scopeOf_eq {before after : Emission} {writing : Option Nat}
    (placed : before.Placed writing) (grown : before.Grown after) {id : Nat}
    (inside : id < before.emitters.length) : after.scopeOf id = before.scopeOf id := by
  obtain ⟨place, found⟩ : ∃ place, before.places[id]? = some place :=
    ⟨_, List.getElem?_eq_getElem (by simpa using inside)⟩
  rw [scopeOf, scopeOf, found, grown.getElem?_places found]
  obtain ⟨instruction | instruction, address⟩ := place
  · obtain ⟨actions, known⟩ := placed.addressed id address found
    simp [scope, known, grown.shared known]
  · rfl

/-- Emitters keep their instructions. -/
theorem Grown.ownerOf_eq {before after : Emission} (grown : before.Grown after) {id : Nat}
    (inside : id < before.emitters.length) : after.ownerOf id = before.ownerOf id := by
  obtain ⟨place, found⟩ : ∃ place, before.places[id]? = some place :=
    ⟨_, List.getElem?_eq_getElem (by simpa using inside)⟩
  rw [ownerOf, ownerOf, found, grown.getElem?_places found]

/-- Nothing has been emitted. -/
theorem empty_consistent : empty.Consistent none where
  placed :=
    { owned := by simp [places, empty]
      addressed := by simp [places, empty]
      covered := by
        intro address actions known
        cases address <;> simp [shared, empty, Ledger.empty, Ledger.key?] at known
      located := by simp [empty]
      registered := by simp [places, empty] }
  recorded :=
    { sound := by simp [namesOf, empty]
      unique := by simp [namesOf, empty]
      plain := by simp [places, empty] }
  closed := by
    intro id caller calls
    simp [callersOf, empty] at calls
  settled := by
    intro id _ effect member
    simp [scopeOf, places, empty, effectsAll] at member

/-- The place of a new emitter is behind all others. -/
theorem getElem?_places_add {before : Emission} {instruction : Option Instruction}
    {address : Callers} {id : Nat} {place : Option Instruction × Callers}
    (found : (before.add (.fresh instruction address)).2.places[id]? = some place) :
    before.places[id]? = some place ∨
      id = before.emitters.length ∧ place = (instruction, address) := by
  have places : (before.add (.fresh instruction address)).2.places =
      before.places ++ [(instruction, address)] := by
    simp [Emission.places, add, Emitter.fresh]
  rw [places] at found
  rcases Nat.lt_or_ge id before.places.length with inside | outside
  · rw [List.getElem?_append_left inside] at found
    exact .inl found
  · rw [List.getElem?_append_right outside, List.getElem?_singleton] at found
    simp only [length_places] at found outside
    split at found
    · exact .inr ⟨by omega, (Option.some.inj found).symm⟩
    · simp at found

/-- A new emitter knows nothing. -/
theorem namesOf_add (before : Emission) (instruction : Option Instruction) (address : Callers)
    (id : Nat) :
    (before.add (.fresh instruction address)).2.namesOf id = before.namesOf id := by
  unfold namesOf add Emitter.fresh
  rcases Nat.lt_or_ge id before.emitters.length with inside | outside
  · simp [List.getElem?_append_left inside]
  · rw [List.getElem?_append_right outside, List.getElem?_eq_none outside, List.getElem?_singleton]
    split <;> simp

/-- A new emitter has imposed nothing. -/
theorem domainsOf_add (before : Emission) (instruction : Option Instruction) (address : Callers)
    (id : Nat) :
    (before.add (.fresh instruction address)).2.domainsOf id = before.domainsOf id := by
  unfold domainsOf add Emitter.fresh
  rcases Nat.lt_or_ge id before.emitters.length with inside | outside
  · simp [List.getElem?_append_left inside]
  · rw [List.getElem?_append_right outside, List.getElem?_eq_none outside, List.getElem?_singleton]
    split <;> simp

/-- A new emitter is placed when its place is that of an instruction, or of a function
that has been requested. -/
theorem Placed.add {before : Emission} (placed : before.Placed none)
    {instruction : Option Instruction} {address : Callers}
    (owned : instruction.isSome = true → address = .listed [])
    (addressed : instruction = none → ∃ actions, before.shared address = some actions) :
    (before.add (.fresh instruction address)).2.Placed (some before.emitters.length) := by
  have grown := add_grown before (.fresh instruction address)
  constructor
  case owned =>
    intro id owner other found
    rcases getElem?_places_add found with old | ⟨-, same⟩
    · exact placed.owned id owner other old
    · simp only [Prod.mk.injEq] at same
      rw [same.2, owned (by simp [← same.1])]
  case addressed =>
    intro id other found
    rcases getElem?_places_add found with old | ⟨-, same⟩
    · obtain ⟨actions, known⟩ := placed.addressed id other old
      exact ⟨actions, grown.shared known⟩
    · simp only [Prod.mk.injEq] at same
      obtain ⟨actions, known⟩ := addressed same.1.symm
      exact ⟨actions, grown.shared (same.2 ▸ known)⟩
  case covered =>
    intro other actions known caller calls
    obtain ⟨inside, reads⟩ := placed.covered other actions known caller calls
    refine ⟨Nat.lt_of_lt_of_le inside grown.size_le, ?_⟩
    rwa [placed.scopeOf_eq grown inside]
  case located =>
    intro routine source known
    exact grown.getElem?_places (placed.located routine source known)
  case registered =>
    intro id routine found
    rcases getElem?_places_add found with old | ⟨new, -⟩
    · exact .inr ((placed.registered id routine old).resolve_left (by simp))
    · exact .inl (congrArg some new)

/-- A new emitter has nothing recorded. -/
theorem Recorded.add {before : Emission} {writing : Option Nat} (recorded : before.Recorded)
    (placed : before.Placed writing) (instruction : Option Instruction) (address : Callers) :
    (before.add (.fresh instruction address)).2.Recorded := by
  have grown := add_grown before (.fresh instruction address)
  constructor
  case sound =>
    intro id
    rw [namesOf_add]
    rcases Nat.lt_or_ge id before.emitters.length with inside | outside
    · rw [placed.scopeOf_eq grown inside]
      exact recorded.sound id
    · simp [namesOf, List.getElem?_eq_none outside]
  case unique =>
    intro id
    rw [namesOf_add]
    exact recorded.unique id
  case plain =>
    intro id other found
    rw [domainsOf_add]
    rcases getElem?_places_add found with old | ⟨rfl, -⟩
    · exact recorded.plain id other old
    · simp [domainsOf]

/-- The body of a new emitter is being written from now on. -/
theorem Consistent.add {before : Emission} (consistent : before.Consistent none)
    {instruction : Option Instruction} {address : Callers}
    (owned : instruction.isSome = true → address = .listed [])
    (addressed : instruction = none → ∃ actions, before.shared address = some actions) :
    (before.add (.fresh instruction address)).2.Consistent (some before.emitters.length) := by
  obtain ⟨placed, recorded, closed, settled⟩ := consistent
  have grown := add_grown before (.fresh instruction address)
  refine ⟨placed.add owned addressed, recorded.add placed instruction address, ?_, ?_⟩
  · intro id caller calls
    rw [namesOf_add, namesOf_add]
    rw [callersOf_eq] at calls
    cases found : (before.add (.fresh instruction address)).2.places[id]? with
    | none => simp [found] at calls
    | some place =>
      rcases getElem?_places_add found with old | ⟨new, -⟩
      · refine .inr ((closed id caller ?_).resolve_left (by simp))
        rw [callersOf_eq, old]
        rwa [found] at calls
      · exact .inl (congrArg some new)
  · intro id other effect member
    rcases Nat.lt_or_ge id before.emitters.length with inside | outside
    · rw [placed.scopeOf_eq grown inside] at member
      rw [grown.ownerOf_eq inside]
      exact (settled id (by simp) effect member).imp_right (·.grown grown)
    · cases found : (before.add (.fresh instruction address)).2.places[id]? with
      | none => simp [scopeOf, found, effectsAll] at member
      | some place =>
        rcases getElem?_places_add found with old | ⟨new, -⟩
        · have := (List.getElem?_eq_some_iff.mp old).1
          rw [length_places] at this
          omega
        · exact absurd (congrArg some new) other

/-- An address that has callers is that of a shared function. -/
theorem shared_of_mem_callers {emission : Emission} {address : Callers} {caller : Nat}
    (calls : caller ∈ emission.callers address)
    (unlisted : ∀ emitters, address ≠ .listed emitters) :
    ∃ actions, emission.shared address = some actions := by
  cases address with
  | listed emitters => exact absurd rfl (unlisted emitters)
  | ofOrdering id =>
    cases found : emission.orderings.entries[id]? with
    | none => simp [callers, found] at calls
    | some entry => exact ⟨entry.1, by simp [shared, Ledger.key?, found]⟩
  | ofRoutine id =>
    cases found : emission.routines.entries[id]? with
    | none => simp [callers, found] at calls
    | some entry => exact ⟨entry.1.routineActions?.getD [], by simp [shared, Ledger.key?, found]⟩

/-- A request keeps emitters and addresses in order when the caller covers what it
requests. -/
theorem Placed.asked {before after : Emission} {writing : Option Nat} {address : Callers}
    {names : List String} {caller : Nat} (placed : before.Placed writing)
    (asked : Asked address names caller before after)
    (inside : caller < before.emitters.length)
    (reads : names ⊆ readsAll (before.scopeOf caller)) : after.Placed writing := by
  have places := asked.places
  constructor
  case owned =>
    rw [places]
    exact placed.owned
  case addressed =>
    intro id other found
    rw [places] at found
    obtain ⟨actions, known⟩ := placed.addressed id other found
    exact ⟨actions, asked.grown.shared known⟩
  case covered =>
    intro other actions known former calls
    rw [asked.emitters]
    rcases asked.only other former calls with old | ⟨rfl, rfl⟩
    · obtain ⟨content, found⟩ := shared_of_mem_callers old (by
        rintro emitters rfl
        simp [shared] at known)
      obtain rfl := Option.some.inj (known.symm.trans (asked.grown.shared found))
      obtain ⟨within, covers⟩ := placed.covered other actions found former old
      exact ⟨within, by rwa [placed.scopeOf_eq asked.grown within]⟩
    · obtain ⟨content, found, same⟩ := asked.content
      obtain rfl := Option.some.inj (known.symm.trans found)
      rw [placed.scopeOf_eq asked.grown inside, same]
      exact ⟨inside, reads⟩
  case located =>
    rw [places, asked.emitted]
    exact placed.located
  case registered =>
    rw [places, asked.emitted]
    exact placed.registered

/-- A request records nothing about bodies. -/
theorem Recorded.asked {before after : Emission} {writing : Option Nat} {address : Callers}
    {names : List String} {caller : Nat} (recorded : before.Recorded)
    (placed : before.Placed writing) (asked : Asked address names caller before after) :
    after.Recorded := by
  constructor
  case sound =>
    intro id
    rw [asked.namesOf_eq]
    rcases Nat.lt_or_ge id before.emitters.length with inside | outside
    · rw [placed.scopeOf_eq asked.grown inside]
      exact recorded.sound id
    · simp [namesOf, List.getElem?_eq_none outside]
  case unique =>
    intro id
    rw [asked.namesOf_eq]
    exact recorded.unique id
  case plain =>
    intro id other found
    rw [asked.places] at found
    rw [asked.domainsOf_eq]
    exact recorded.plain id other found

/-- A request makes no call pending but those of the new caller. -/
theorem Closed.asked {before after : Emission} {pending : Nat → Nat → Prop} {address : Callers}
    {names : List String} {caller : Nat} (closed : before.Closed pending)
    (asked : Asked address names caller before after) :
    after.Closed fun id other => pending id other ∨
      other = caller ∧ ∃ owner, before.places[id]? = some (owner, address) := by
  have places := asked.places
  intro id other calls
  rw [asked.namesOf_eq, asked.namesOf_eq]
  rw [callersOf_eq, places] at calls
  cases found : before.places[id]? with
  | none => simp [found] at calls
  | some place =>
    simp only [found, Option.map_some, Option.getD_some] at calls
    rcases asked.only place.2 other calls with old | ⟨rfl, rfl⟩
    · refine (closed id other ?_).imp_left .inl
      rw [callersOf_eq, found]
      exact old
    · exact .inl (.inr ⟨rfl, place.1, found⟩)

/-- Growth settles what has been settled, if there are no new emitters. -/
theorem Settled.grown {before after : Emission} {writing other : Option Nat}
    (settled : before.Settled writing) (placed : before.Placed other)
    (grown : before.Grown after) (size : after.emitters.length = before.emitters.length) :
    after.Settled writing := by
  intro id elsewhere effect member
  rcases Nat.lt_or_ge id before.emitters.length with inside | outside
  · rw [placed.scopeOf_eq grown inside] at member
    rw [grown.ownerOf_eq inside]
    exact (settled id elsewhere effect member).imp_right (·.grown grown)
  · have nowhere : after.places[id]? = none := by
      rw [List.getElem?_eq_none_iff, length_places, size]
      exact outside
    simp [scopeOf, nowhere, effectsAll] at member

end Emission

end EncoderTables.Generator
