import EncoderTables.Proofs.Encoding.Reads
import EncoderTables.Proofs.Generator.Merging
import EncoderTables.Proofs.Sharing.Requests

/-!
# Scopes of emitters

An emitter is in charge of some actions: the encoding of its instruction, or the content
of a shared function, which is found under the address that also lists its callers. An
emission only grows: emitters stay in charge of what they are in charge of, shared
functions keep their addresses, and what is known about a body becomes more at its end.
-/

namespace EncoderTables.Generator

namespace Emission

/-- What each emitter is in charge of: an instruction, or the function of an address. -/
def places (emission : Emission) : List (Option Instruction × Callers) :=
  emission.emitters.map fun emitter => (emitter.instruction, emitter.callers)

/-- The actions of the shared function of an address. A routine is a list of actions. -/
def shared (emission : Emission) : Callers → Option (List Node)
  | .listed _ => none
  | .ofOrdering id => emission.orderings.key? id
  | .ofRoutine id => (emission.routines.key? id).map fun key => key.routineActions?.getD []

/-- The actions that belong to a place. -/
def scope (emission : Emission) : Option Instruction × Callers → List Node
  | (some instruction, _) => instruction.encoding
  | (none, address) => (emission.shared address).getD []

/-- The actions whose code is the body of an emitter. -/
def scopeOf (emission : Emission) (id : Nat) : List Node :=
  (emission.places[id]?.map emission.scope).getD []

/-- The domains that an emitter has imposed. -/
def domainsOf (emission : Emission) (id : Nat) : List (String × Domain) :=
  (emission.emitters[id]?.map (·.domains)).getD []

/-- The imposed names are those of the imposed domains. -/
theorem keysOf_eq (emission : Emission) (id : Nat) :
    emission.keysOf id = keys (emission.domainsOf id) := by
  unfold keysOf domainsOf
  cases emission.emitters[id]? <;> rfl

/-- There is one place for each emitter. -/
@[simp]
theorem length_places (emission : Emission) :
    emission.places.length = emission.emitters.length := List.length_map ..

/-- The place of an emitter. -/
theorem getElem?_places (emission : Emission) (id : Nat) :
    emission.places[id]? =
      emission.emitters[id]?.map fun emitter => (emitter.instruction, emitter.callers) :=
  List.getElem?_map ..

/-- Callers belong to the address of an emitter. -/
theorem callersOf_eq (emission : Emission) (id : Nat) :
    emission.callersOf id =
      (emission.places[id]?.map fun place => emission.callers place.2).getD [] := by
  rw [callersOf, getElem?_places, Option.map_map]
  rfl

/-- A change of emitters that leaves all of them at their places. -/
structure Reshaped (before after : Emission) : Prop where
  frame : after = { before with emitters := after.emitters }
  places : after.places = before.places

namespace Reshaped

variable {before after : Emission}

/-- Addresses keep their callers. -/
theorem callers_eq (reshaped : Reshaped before after) (address : Callers) :
    after.callers address = before.callers address := by
  rw [reshaped.frame]
  rfl

/-- Addresses keep their actions. -/
theorem shared_eq (reshaped : Reshaped before after) (address : Callers) :
    after.shared address = before.shared address := by
  rw [reshaped.frame]
  rfl

/-- Emitters keep their actions. -/
theorem scopeOf_eq (reshaped : Reshaped before after) (id : Nat) :
    after.scopeOf id = before.scopeOf id := by
  have same : after.scope = before.scope := by
    rw [reshaped.frame]
    rfl
  rw [scopeOf, reshaped.places, same, scopeOf]

/-- Emitters keep their callers. -/
theorem callersOf_eq (reshaped : Reshaped before after) (id : Nat) :
    after.callersOf id = before.callersOf id := by
  simp only [Emission.callersOf_eq, reshaped.places, reshaped.callers_eq]

/-- There are as many emitters as before. -/
theorem size_eq (reshaped : Reshaped before after) :
    after.emitters.length = before.emitters.length := by
  rw [← length_places, reshaped.places, length_places]

end Reshaped

/-- An emission in which emitters are where they were, or new and behind all others. What
was known about functions and their callers is known still, and what has been read has
been read first. -/
structure Grown (before after : Emission) : Prop where
  places : before.places <+: after.places
  orderings : before.orderings.Grown after.orderings
  routines : before.routines.Grown after.routines
  names : ∀ id, before.namesOf id <+: after.namesOf id

namespace Grown

variable {before middle after : Emission}

/-- Nothing has happened. -/
theorem refl (emission : Emission) : Grown emission emission :=
  ⟨List.prefix_rfl, .refl _, .refl _, fun _ => List.prefix_rfl⟩

/-- Growth after growth. -/
theorem trans (head : Grown before middle) (tail : Grown middle after) : Grown before after :=
  ⟨head.places.trans tail.places, head.orderings.trans tail.orderings,
    head.routines.trans tail.routines, fun id => (head.names id).trans (tail.names id)⟩

/-- No emitter is lost. -/
theorem size_le (grown : Grown before after) :
    before.emitters.length ≤ after.emitters.length := by
  simpa using grown.places.length_le

/-- Emitters stay at their places. -/
theorem getElem?_places (grown : Grown before after) {id : Nat}
    {place : Option Instruction × Callers} (found : before.places[id]? = some place) :
    after.places[id]? = some place := by
  obtain ⟨rest, same⟩ := grown.places
  rw [← same, List.getElem?_append_left (List.getElem?_eq_some_iff.mp found).1, found]

/-- Addresses keep their actions. -/
theorem shared (grown : Grown before after) {address : Callers} {actions : List Node}
    (found : before.shared address = some actions) : after.shared address = some actions := by
  cases address with
  | listed emitters => simp [Emission.shared] at found
  | ofOrdering id => exact grown.orderings.key? found
  | ofRoutine id =>
    obtain ⟨key, known, rfl⟩ := Option.map_eq_some_iff.mp found
    simp [Emission.shared, grown.routines.key? known]

/-- Addresses keep their callers. -/
theorem callers (grown : Grown before after) (address : Callers) :
    before.callers address ⊆ after.callers address := by
  cases address with
  | listed emitters => exact List.Subset.refl emitters
  | ofOrdering id => exact grown.orderings.consumersOf id
  | ofRoutine id => exact grown.routines.consumersOf id

end Grown

/-- A change of what is known about emitters makes an emission grow when it only adds
names. -/
theorem Reshaped.grown {before after : Emission} (reshaped : Reshaped before after)
    (names : ∀ id, before.namesOf id <+: after.namesOf id) : Grown before after := by
  refine ⟨by rw [reshaped.places], ?_, ?_, names⟩
  · rw [reshaped.frame]
    exact .refl _
  · rw [reshaped.frame]
    exact .refl _

/-- An emitter is behind all others once it has been added. -/
theorem add_grown (emission : Emission) (emitter : Emitter) :
    Grown emission (emission.add emitter).2 where
  places := by simp [places, add]
  orderings := .refl _
  routines := .refl _
  names id := by
    by_cases inside : id < emission.emitters.length
    · simp [namesOf, add, List.getElem?_append_left inside]
    · simp [namesOf, List.getElem?_eq_none (Nat.le_of_not_lt inside)]

end Emission

/-- A merge leaves emitters at their places. -/
theorem Merged.reshaped {region : Nat → Prop} {names : List String}
    {entries : List (String × Domain)} {before after : Emission}
    (merged : Merged region names entries before after) : before.Reshaped after where
  frame := merged.frame
  places := by
    apply List.ext_getElem?
    intro id
    rw [Emission.getElem?_places, Emission.getElem?_places]
    cases found : before.emitters[id]? with
    | none =>
      rw [merged.outside found]
    | some emitter =>
      obtain ⟨added, given, reached, -⟩ := merged.absorbed id emitter found
      simp [reached, Emitter.absorb]

/-- A merge makes an emission grow. -/
theorem Merged.grown {region : Nat → Prop} {names : List String}
    {entries : List (String × Domain)} {before after : Emission}
    (merged : Merged region names entries before after) : before.Grown after := by
  refine merged.reshaped.grown ?_
  intro id
  unfold Emission.namesOf
  cases found : before.emitters[id]? with
  | none => simp
  | some emitter =>
    obtain ⟨added, given, reached, -⟩ := merged.absorbed id emitter found
    simp [reached, Emitter.absorb]

/-- A merge without entries leaves the domains as they are. -/
theorem Merged.domainsOf_eq {region : Nat → Prop} {names : List String}
    {before after : Emission} (merged : Merged region names [] before after) (id : Nat) :
    after.domainsOf id = before.domainsOf id := by
  unfold Emission.domainsOf
  cases found : before.emitters[id]? with
  | none =>
    rw [merged.outside found]
  | some emitter =>
    obtain ⟨added, given, reached, -, legal⟩ := merged.absorbed id emitter found
    have nothing : given = [] :=
      List.eq_nil_iff_forall_not_mem.mpr fun entry member => by simpa using (legal entry member).1
    simp [reached, Emitter.absorb, nothing, missingEntries]

end EncoderTables.Generator
