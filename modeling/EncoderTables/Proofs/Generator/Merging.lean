import Mathlib.Algebra.Order.BigOperators.Group.Finset
import Mathlib.Logic.Relation
import EncoderTables.Proofs.Generator.Missing

/-!
# Merging along callers

A merge gives names and domains to an emitter and hands on to its callers only what was
new. Whatever the calls are, cyclic ones included, it adds nothing but what is given and
nowhere but where calls lead to. With enough fuel it reaches the emitter itself, and a
call whose caller knew all that the called function knew is such a call afterwards; the
fuel counts what all emitters together can still learn.
-/

namespace EncoderTables.Generator

namespace Emission

/-- The emitters that call the function of an emitter. -/
def callersOf (emission : Emission) (id : Nat) : List Nat :=
  (emission.emitters[id]?.map fun emitter => emission.callers emitter.callers).getD []

/-- The parameters that an emitter has recorded. -/
def namesOf (emission : Emission) (id : Nat) : List String :=
  (emission.emitters[id]?.map (·.parameters)).getD []

/-- The parameters that an emitter has imposed a domain on. -/
def keysOf (emission : Emission) (id : Nat) : List String :=
  (emission.emitters[id]?.map fun emitter => keys emitter.domains).getD []

/-- Calls lead from a function to its callers, their callers and so on. -/
def Reaches (emission : Emission) : Nat → Nat → Prop :=
  Relation.ReflTransGen fun id caller => caller ∈ emission.callersOf id

/-- A caller knows all that a function that it calls knows. -/
def Contains (emission : Emission) (id caller : Nat) : Prop :=
  emission.namesOf id ⊆ emission.namesOf caller ∧ emission.keysOf id ⊆ emission.keysOf caller

/-- Callers are emitters. -/
def Wired (emission : Emission) : Prop :=
  ∀ id, ∀ caller ∈ emission.callersOf id, caller < emission.emitters.length

end Emission

/-- A later emission differs from an earlier one only by names and entries that emitters
in some region have taken over. -/
structure Merged (region : Nat → Prop) (names : List String) (entries : List (String × Domain))
    (before after : Emission) : Prop where
  frame : after = { before with emitters := after.emitters }
  size : after.emitters.length = before.emitters.length
  absorbed : ∀ id emitter, before.emitters[id]? = some emitter →
    ∃ added given, after.emitters[id]? = some (emitter.absorb added given) ∧
      (∀ name ∈ added, name ∈ names ∧ region id) ∧ (∀ entry ∈ given, entry ∈ entries ∧ region id)

namespace Merged

variable {region wider : Nat → Prop} {names more : List String}
  {entries further : List (String × Domain)} {before middle after : Emission}

/-- Nothing has been taken over. -/
theorem refl (emission : Emission) : Merged region names entries emission emission where
  frame := rfl
  size := rfl
  absorbed id emitter found := ⟨[], [], by simp [found], by simp, by simp⟩

/-- One merge after the other. -/
theorem trans (first : Merged region names entries before middle)
    (second : Merged region names entries middle after) :
    Merged region names entries before after where
  frame := by rw [second.frame, first.frame]
  size := second.size.trans first.size
  absorbed id emitter found := by
    obtain ⟨added, given, reached, addedLegal, givenLegal⟩ := first.absorbed id emitter found
    obtain ⟨others, rest, final, othersLegal, restLegal⟩ := second.absorbed id _ reached
    refine ⟨added ++ others, given ++ rest, by rw [final, Emitter.absorb_absorb], ?_, ?_⟩
    · intro name member
      exact (List.mem_append.mp member).elim (addedLegal name) (othersLegal name)
    · intro entry member
      exact (List.mem_append.mp member).elim (givenLegal entry) (restLegal entry)

/-- A merge of less, or inside a smaller region. -/
theorem mono (merged : Merged region names entries before after)
    (inside : ∀ id, region id → wider id) (fewer : names ⊆ more) (smaller : entries ⊆ further) :
    Merged wider more further before after where
  frame := merged.frame
  size := merged.size
  absorbed id emitter found := by
    obtain ⟨added, given, reached, addedLegal, givenLegal⟩ := merged.absorbed id emitter found
    refine ⟨added, given, reached, ?_, ?_⟩
    · intro name member
      exact (addedLegal name member).imp (@fewer name) (inside id)
    · intro entry member
      exact (givenLegal entry member).imp (@smaller entry) (inside id)

/-- Merges one after the other, each of which starts where the ones before it ended. -/
theorem foldl (step : Emission → Nat → Emission) (targets : List Nat)
    (start : Merged region names entries before middle)
    (each : ∀ reached, Merged region names entries before reached → ∀ target ∈ targets,
      Merged region names entries reached (step reached target)) :
    Merged region names entries before (targets.foldl step middle) := by
  induction targets generalizing middle with
  | nil => exact start
  | cons target rest inductionHypothesis =>
    have next := start.trans (each middle start target List.mem_cons_self)
    refine inductionHypothesis next ?_
    intro reached merged other member
    exact each reached merged other (List.mem_cons_of_mem _ member)

/-- An emitter that knows all that is given does not change. -/
theorem known_unchanged (merged : Merged region names entries before after) {id : Nat}
    {emitter : Emitter} (found : before.emitters[id]? = some emitter)
    (known : names ⊆ emitter.parameters) (imposed : keys entries ⊆ keys emitter.domains) :
    after.emitters[id]? = some emitter := by
  obtain ⟨added, given, reached, addedLegal, givenLegal⟩ := merged.absorbed id emitter found
  have nothing : missingNames emitter.parameters added = [] :=
    (missingNames_eq_nil_iff ..).mpr fun name member => known (addedLegal name member).1
  have none : missingEntries (keys emitter.domains) given = [] := by
    rw [missingEntries_eq_nil_iff, missingNames_eq_nil_iff]
    intro name member
    obtain ⟨entry, inside, rfl⟩ := List.mem_map.mp member
    exact imposed (List.mem_map_of_mem (givenLegal entry inside).1)
  simp [reached, Emitter.absorb, nothing, none]

/-- Where there was no emitter there is none. -/
theorem outside (merged : Merged region names entries before after) {id : Nat}
    (missing : before.emitters[id]? = none) : after.emitters[id]? = none := by
  rw [List.getElem?_eq_none_iff] at missing ⊢
  rwa [merged.size]

/-- A merge leaves the callers as they are. -/
theorem callersOf_eq (merged : Merged region names entries before after) (id : Nat) :
    after.callersOf id = before.callersOf id := by
  have ledgers (callers : Callers) : after.callers callers = before.callers callers := by
    rw [merged.frame]
    rfl
  unfold Emission.callersOf
  cases found : before.emitters[id]? with
  | none =>
    simp [merged.outside found]
  | some emitter =>
    obtain ⟨added, given, reached, _⟩ := merged.absorbed id emitter found
    simp [reached, Emitter.absorb, ledgers]

/-- A merge leaves it as it is where calls lead to. -/
theorem reaches_eq (merged : Merged region names entries before after) :
    after.Reaches = before.Reaches := by
  simp only [Emission.Reaches, merged.callersOf_eq]

/-- Callers stay emitters. -/
theorem wired (merged : Merged region names entries before after) (wired : before.Wired) :
    after.Wired := by
  intro id caller member
  rw [merged.callersOf_eq] at member
  rw [merged.size]
  exact wired id caller member

/-- What an emitter knows after a merge, and what it may have learned. -/
theorem mem_namesOf (merged : Merged region names entries before after) (id : Nat) :
    before.namesOf id ⊆ after.namesOf id ∧
      ∀ name ∈ after.namesOf id, name ∈ before.namesOf id ∨ name ∈ names ∧ region id := by
  unfold Emission.namesOf
  cases found : before.emitters[id]? with
  | none =>
    simp [merged.outside found]
  | some emitter =>
    obtain ⟨added, given, reached, addedLegal, _⟩ := merged.absorbed id emitter found
    simp only [reached, Option.map_some, Option.getD_some]
    constructor
    · intro name member
      exact (Emitter.mem_absorb_parameters ..).mpr (.inl member)
    · intro name member
      exact ((Emitter.mem_absorb_parameters ..).mp member).imp_right (addedLegal name)

/-- What an emitter has imposed after a merge, and what may be new about it. -/
theorem mem_keysOf (merged : Merged region names entries before after) (id : Nat) :
    before.keysOf id ⊆ after.keysOf id ∧
      ∀ name ∈ after.keysOf id, name ∈ before.keysOf id ∨ name ∈ keys entries ∧ region id := by
  unfold Emission.keysOf
  cases found : before.emitters[id]? with
  | none =>
    simp [merged.outside found]
  | some emitter =>
    obtain ⟨added, given, reached, _, givenLegal⟩ := merged.absorbed id emitter found
    simp only [reached, Option.map_some, Option.getD_some]
    constructor
    · intro name member
      exact (Emitter.mem_absorb_keys ..).mpr (.inl member)
    · intro name member
      refine ((Emitter.mem_absorb_keys ..).mp member).imp_right ?_
      intro isKey
      obtain ⟨entry, inside, rfl⟩ := List.mem_map.mp isKey
      obtain ⟨legal, here⟩ := givenLegal entry inside
      exact ⟨List.mem_map_of_mem legal, here⟩

end Merged

/-- What an emitter can still learn from names and entries. -/
def Emission.lack (emission : Emission) (names : List String) (entries : List (String × Domain))
    (id : Nat) : Nat :=
  (missingNames (emission.namesOf id) names).length +
    (missingNames (emission.keysOf id) (keys entries)).length

/-- What all emitters together can still learn from names and entries. -/
def Emission.gain (emission : Emission) (names : List String)
    (entries : List (String × Domain)) : Nat :=
  ∑ id ∈ Finset.range emission.emitters.length, emission.lack names entries id

/-- The emitter behind a change of one emitter. -/
theorem Emission.getElem?_update (emission : Emission) (id other : Nat)
    (change : Emitter → Emitter) :
    (emission.update id change).emitters[other]? =
      if id = other then emission.emitters[other]?.map change else emission.emitters[other]? := by
  simp only [Emission.update, List.getElem?_modify]
  split <;> simp

/-- No emitter appears or disappears when one is changed. -/
@[simp]
theorem Emission.length_update (emission : Emission) (id : Nat) (change : Emitter → Emitter) :
    (emission.update id change).emitters.length = emission.emitters.length := by
  simp [Emission.update]

/-- A merge first gives an emitter what it lacks. -/
theorem update_merged (before : Emission) (id : Nat) (names : List String)
    (entries : List (String × Domain)) :
    Merged (· = id) names entries before (before.update id (·.absorb names entries)) where
  frame := rfl
  size := Emission.length_update ..
  absorbed other known foundOther := by
    rw [Emission.getElem?_update]
    by_cases same : id = other
    · subst same
      refine ⟨names, entries, by simp [foundOther], ?_, ?_⟩
      · exact fun _ member => ⟨member, rfl⟩
      · exact fun _ member => ⟨member, rfl⟩
    · exact ⟨[], [], by simp [same, foundOther], by simp, by simp⟩

/-- What an emitter knows once it has been given names and entries. -/
theorem namesOf_update (before : Emission) (id : Nat) (inside : id < before.emitters.length)
    (names : List String) (entries : List (String × Domain)) :
    (∀ name, name ∈ (before.update id (·.absorb names entries)).namesOf id ↔
      name ∈ before.namesOf id ∨ name ∈ names) ∧
    (∀ name, name ∈ (before.update id (·.absorb names entries)).keysOf id ↔
      name ∈ before.keysOf id ∨ name ∈ keys entries) := by
  simp only [Emission.namesOf, Emission.keysOf, Emission.getElem?_update, if_true,
    List.getElem?_eq_getElem inside, Option.map_some, Option.getD_some,
    Emitter.mem_absorb_parameters, Emitter.mem_absorb_keys, implies_true, and_self]

namespace Emission

/-- One step of a merge: an emitter that lacks something takes it over, and its callers
are given what was new to it. -/
theorem mergeWithin_succ (before : Emission) (fuel id : Nat) (names : List String)
    (entries : List (String × Domain)) :
    before.mergeWithin (fuel + 1) names entries id =
      if before.lack names entries id = 0 then before
      else (before.callersOf id).foldl
        (mergeWithin fuel (missingNames (before.namesOf id) names)
          (missingEntries (before.keysOf id) entries))
        (before.update id (·.absorb names entries)) := by
  unfold mergeWithin lack namesOf keysOf callersOf
  cases found : before.emitters[id]? with
  | none =>
    have outside : before.emitters.length ≤ id := List.getElem?_eq_none_iff.mp found
    simp [update, List.modify_eq_self outside]
  | some emitter =>
    simp only [Option.map_some, Option.getD_some, Nat.add_eq_zero_iff, List.length_eq_zero_iff,
      ← missingEntries_eq_nil_iff, Bool.and_eq_true, List.isEmpty_iff]
    by_cases known : missingNames emitter.parameters names = [] ∧
      missingEntries (keys emitter.domains) entries = []
    · rw [if_pos known]
      exact if_pos known
    · have taken : (before.update id fun known =>
          { known with
            parameters := known.parameters ++ missingNames emitter.parameters names
            domains := known.domains ++ missingEntries (keys emitter.domains) entries }) =
          before.update id (·.absorb names entries) := by
        unfold update
        congr 1
        apply List.ext_getElem?
        intro position
        by_cases here : id = position
        · subst here
          simp [found, Emitter.absorb]
        · simp [here]
      rw [if_neg known, ← taken]
      exact if_neg known

/-- A merge adds nothing but what is given, and only where calls lead to. -/
theorem mergeWithin_merged (fuel : Nat) (names : List String) (entries : List (String × Domain))
    (before : Emission) (id : Nat) :
    Merged (before.Reaches id) names entries before (before.mergeWithin fuel names entries id) := by
  induction fuel generalizing names entries before id with
  | zero => exact .refl before
  | succ fuel inductionHypothesis =>
    rw [mergeWithin_succ]
    split
    · exact .refl before
    · refine Merged.foldl _ _ ?_ ?_
      · exact (update_merged before id names entries).mono (fun _ same => same ▸ .refl)
          (List.Subset.refl _) (List.Subset.refl _)
      · intro reached merged caller member
        refine (inductionHypothesis _ _ reached caller).mono ?_ ?_ (missingEntries_subset ..)
        · intro other led
          rw [merged.reaches_eq] at led
          exact .head member led
        · exact fun name missing => ((mem_missingNames ..).mp missing).1

/-- The more has been merged and the less is given, the less there is to learn. -/
theorem lack_le_lack {region : Nat → Prop} {given names fewer : List String}
    {all entries smaller : List (String × Domain)} {before after : Emission}
    (merged : Merged region given all before after) (asked : fewer ⊆ names)
    (further : smaller ⊆ entries) (id : Nat) :
    after.lack fewer smaller id ≤ before.lack names entries id := by
  refine Nat.add_le_add ?_ ?_
  · exact missingNames_length_le (merged.mem_namesOf id).1 asked
  · exact missingNames_length_le (merged.mem_keysOf id).1 (List.map_subset _ further)

/-- The same for all emitters together. -/
theorem gain_le_gain {region : Nat → Prop} {given names fewer : List String}
    {all entries smaller : List (String × Domain)} {before after : Emission}
    (merged : Merged region given all before after) (asked : fewer ⊆ names)
    (further : smaller ⊆ entries) : after.gain fewer smaller ≤ before.gain names entries := by
  unfold gain
  rw [merged.size]
  exact Finset.sum_le_sum fun id _ => lack_le_lack merged asked further id

/-- Once an emitter has taken over what it lacked, there is less to learn for all emitters
together. -/
theorem gain_update_lt {before : Emission} {id : Nat} {names : List String}
    {entries : List (String × Domain)} (inside : id < before.emitters.length)
    (lacking : before.lack names entries id ≠ 0) :
    (before.update id (·.absorb names entries)).gain
      (missingNames (before.namesOf id) names) (missingEntries (before.keysOf id) entries) <
      before.gain names entries := by
  have merged := update_merged before id names entries
  have asked : missingNames (before.namesOf id) names ⊆ names :=
    fun name missing => ((mem_missingNames ..).mp missing).1
  have further := missingEntries_subset (before.keysOf id) entries
  unfold gain
  rw [merged.size]
  refine Finset.sum_lt_sum (fun other _ => lack_le_lack merged asked further other) ?_
  refine ⟨id, Finset.mem_range.mpr inside, ?_⟩
  have known := namesOf_update before id inside names entries
  have nothing : (before.update id (·.absorb names entries)).lack
      (missingNames (before.namesOf id) names) (missingEntries (before.keysOf id) entries) id =
      0 := by
    simp only [lack, Nat.add_eq_zero_iff, List.length_eq_zero_iff, missingNames_eq_nil_iff]
    constructor
    · exact fun name missing => (known.1 name).mpr (.inr (asked missing))
    · exact fun name missing => (known.2 name).mpr (.inr (List.map_subset _ further missing))
  omega

/-- Every call whose caller knew all that the called function knew is such a call still. -/
def Keeps (before after : Emission) : Prop :=
  ∀ id, ∀ caller ∈ before.callersOf id, before.Contains id caller → after.Contains id caller

/-- An emitter knows names and entries. -/
def Knows (emission : Emission) (names : List String) (entries : List (String × Domain))
    (id : Nat) : Prop :=
  names ⊆ emission.namesOf id ∧ keys entries ⊆ emission.keysOf id

/-- What has been learned is not forgotten. -/
theorem Knows.after {region : Nat → Prop} {names given : List String}
    {entries all : List (String × Domain)} {before after : Emission} {id : Nat}
    (known : before.Knows names entries id) (merged : Merged region given all before after) :
    after.Knows names entries id :=
  ⟨List.Subset.trans known.1 (merged.mem_namesOf id).1,
    List.Subset.trans known.2 (merged.mem_keysOf id).1⟩

/-- Giving names and entries to one emitter leaves the calls of all others in order. -/
theorem contains_update {before : Emission} {id other caller : Nat} {names : List String}
    {entries : List (String × Domain)} (distinct : other ≠ id)
    (contained : before.Contains other caller) :
    (before.update id (·.absorb names entries)).Contains other caller := by
  have merged := update_merged before id names entries
  refine ⟨?_, ?_⟩
  · intro name present
    rcases (merged.mem_namesOf other).2 name present with old | ⟨-, same⟩
    · exact (merged.mem_namesOf caller).1 (contained.1 old)
    · exact absurd same distinct
  · intro name present
    rcases (merged.mem_keysOf other).2 name present with old | ⟨-, same⟩
    · exact (merged.mem_keysOf caller).1 (contained.2 old)
    · exact absurd same distinct

/-- What a merge is for: its target knows all that was given, and no call that was in
order has been put out of order. -/
structure Taught (names : List String) (entries : List (String × Domain)) (id : Nat)
    (before after : Emission) : Prop where
  knows : after.Knows names entries id
  keeps : before.Keeps after

/-- Several targets are taught one after the other. -/
theorem foldl_taught {region : Nat → Prop} {names : List String}
    {entries : List (String × Domain)} {step : Emission → Nat → Emission} {before : Emission}
    (targets : List Nat)
    (each : ∀ reached, Merged region names entries before reached → ∀ target ∈ targets,
      Merged region names entries reached (step reached target) ∧
        Taught names entries target reached (step reached target))
    {middle : Emission} (start : Merged region names entries before middle) :
    (∀ target ∈ targets, (targets.foldl step middle).Knows names entries target) ∧
      middle.Keeps (targets.foldl step middle) := by
  induction targets generalizing middle with
  | nil => exact ⟨by simp, fun _ _ _ => id⟩
  | cons target rest inductionHypothesis =>
    obtain ⟨merged, taught⟩ := each middle start target List.mem_cons_self
    have others : ∀ reached, Merged region names entries before reached → ∀ other ∈ rest,
        Merged region names entries reached (step reached other) ∧
          Taught names entries other reached (step reached other) :=
      fun reached led other member => each reached led other (List.mem_cons_of_mem _ member)
    have remaining : Merged region names entries (step middle target)
        (rest.foldl step (step middle target)) :=
      Merged.foldl step rest (.refl _) fun reached led other member =>
        (others reached ((start.trans merged).trans led) other member).1
    obtain ⟨known, kept⟩ := inductionHypothesis others (start.trans merged)
    refine ⟨?_, ?_⟩
    · intro other member
      rcases List.mem_cons.mp member with rfl | member
      · exact taught.knows.after remaining
      · exact known other member
    · intro id caller member contained
      refine kept id caller ?_ (taught.keeps id caller member contained)
      rwa [merged.callersOf_eq]

/-- When an emitter has learned something, a merge with enough fuel for it has enough for each of
its callers, whichever of them have been given what was new. -/
theorem fuel_for_caller {names : List String} {entries : List (String × Domain)}
    {before reached : Emission} {id caller fuel : Nat} (wired : before.Wired)
    (inside : id < before.emitters.length) (lacking : before.lack names entries id ≠ 0)
    (enough : before.gain names entries < fuel + 1)
    (merged : Merged (before.Reaches id) (missingNames (before.namesOf id) names)
      (missingEntries (before.keysOf id) entries)
      (before.update id (·.absorb names entries)) reached)
    (member : caller ∈ before.callersOf id) :
    reached.Wired ∧ caller < reached.emitters.length ∧
      reached.gain (missingNames (before.namesOf id) names)
        (missingEntries (before.keysOf id) entries) < fuel ∧
      Merged (before.Reaches id) (missingNames (before.namesOf id) names)
        (missingEntries (before.keysOf id) entries) reached
        (reached.mergeWithin fuel (missingNames (before.namesOf id) names)
          (missingEntries (before.keysOf id) entries) caller) := by
  have first := update_merged before id names entries
  refine ⟨merged.wired (first.wired wired), ?_, ?_, ?_⟩
  · rw [merged.size, first.size]
    exact wired id caller member
  · have less := gain_update_lt inside lacking
    have kept := gain_le_gain merged (List.Subset.refl (missingNames (before.namesOf id) names))
      (List.Subset.refl (missingEntries (before.keysOf id) entries))
    omega
  · refine (mergeWithin_merged fuel _ _ reached caller).mono ?_ (List.Subset.refl _)
      (List.Subset.refl _)
    intro other led
    rw [merged.reaches_eq, first.reaches_eq] at led
    exact .head member led

/-- A caller of an emitter that learns something is in order again once it has been told what was
new: the emitter may grow while its callers are taught, but by nothing that is new to it. -/
theorem contains_of_told {region : Nat → Prop} {names : List String}
    {entries : List (String × Domain)} {before after : Emission} {id caller : Nat}
    (inside : id < before.emitters.length) (contained : before.Contains id caller)
    (merged : Merged region (missingNames (before.namesOf id) names)
      (missingEntries (before.keysOf id) entries)
      (before.update id (·.absorb names entries)) after)
    (told : after.Knows (missingNames (before.namesOf id) names)
      (missingEntries (before.keysOf id) entries) caller) : after.Contains id caller := by
  have first := update_merged before id names entries
  have learned := namesOf_update before id inside names entries
  rw [Knows, keys_missingEntries] at told
  have names_source : ∀ name ∈ after.namesOf id, name ∈ before.namesOf id ∨ name ∈ names := by
    intro name present
    rcases (merged.mem_namesOf id).2 name present with here | ⟨given, -⟩
    · exact (learned.1 name).mp here
    · exact .inr ((mem_missingNames ..).mp given).1
  have keys_source : ∀ name ∈ after.keysOf id,
      name ∈ before.keysOf id ∨ name ∈ keys entries := by
    intro name present
    rcases (merged.mem_keysOf id).2 name present with here | ⟨given, -⟩
    · exact (learned.2 name).mp here
    · rw [keys_missingEntries] at given
      exact .inr ((mem_missingNames ..).mp given).1
  refine ⟨subset_of_told ?_ told.1 names_source, subset_of_told ?_ told.2 keys_source⟩
  · exact fun name old => (merged.mem_namesOf caller).1 ((first.mem_namesOf caller).1
      (contained.1 old))
  · exact fun name old => (merged.mem_keysOf caller).1 ((first.mem_keysOf caller).1
      (contained.2 old))

/-- A merge with enough fuel does what it is for, whatever the calls are. -/
theorem mergeWithin_taught (fuel : Nat) (names : List String)
    (entries : List (String × Domain)) {before : Emission} {id : Nat} (wired : before.Wired)
    (inside : id < before.emitters.length) (enough : before.gain names entries < fuel) :
    Taught names entries id before (before.mergeWithin fuel names entries id) := by
  induction fuel generalizing names entries before id with
  | zero => omega
  | succ fuel inductionHypothesis =>
    rw [mergeWithin_succ]
    split
    · next known =>
      simp only [lack, Nat.add_eq_zero_iff, List.length_eq_zero_iff,
        missingNames_eq_nil_iff] at known
      exact ⟨known, fun _ _ _ contained => contained⟩
    · next lacking =>
      set missing := missingNames (before.namesOf id) names
      set further := missingEntries (before.keysOf id) entries
      set middle := before.update id (·.absorb names entries)
      have first := update_merged before id names entries
      have learned := namesOf_update before id inside names entries
      have each : ∀ reached, Merged (before.Reaches id) missing further middle reached →
          ∀ caller ∈ before.callersOf id,
            Merged (before.Reaches id) missing further reached
              (reached.mergeWithin fuel missing further caller) ∧
            Taught missing further caller reached
              (reached.mergeWithin fuel missing further caller) := by
        intro reached merged caller member
        obtain ⟨wiredToo, insideToo, less, next⟩ :=
          fuel_for_caller wired inside lacking enough merged member
        exact ⟨next, inductionHypothesis missing further wiredToo insideToo less⟩
      obtain ⟨known, kept⟩ := foldl_taught (before.callersOf id) each (.refl middle)
      set after := (before.callersOf id).foldl (mergeWithin fuel missing further) middle
      have rest : Merged (before.Reaches id) missing further middle after :=
        Merged.foldl _ _ (.refl middle) fun reached merged caller member =>
          (each reached merged caller member).1
      refine ⟨?_, ?_⟩
      · exact Knows.after ⟨fun name given => (learned.1 name).mpr (.inr given),
          fun name given => (learned.2 name).mpr (.inr given)⟩ rest
      · intro other caller member contained
        by_cases same : other = id
        · subst same
          exact contains_of_told inside contained rest (known caller member)
        · refine kept other caller (by rwa [first.callersOf_eq]) ?_
          exact contains_update same contained

/-- What all emitters together can learn is bounded by what they are given. -/
theorem gain_le (emission : Emission) (names : List String) (entries : List (String × Domain)) :
    emission.gain names entries ≤ emission.emitters.length * (names.length + entries.length) := by
  unfold gain
  refine (Finset.sum_le_card_nsmul _ _ (names.length + entries.length) ?_).trans_eq (by simp)
  intro id _
  refine Nat.add_le_add (missingNames_length_le_length ..) ?_
  exact (missingNames_length_le_length ..).trans_eq (by simp [keys])

/-- A merge teaches its target, and all that calls lead to from there. -/
theorem merge_taught {before : Emission} {id : Nat} (wired : before.Wired)
    (inside : id < before.emitters.length) (names : List String)
    (entries : List (String × Domain)) :
    Taught names entries id before (before.merge id names entries) :=
  mergeWithin_taught _ names entries wired inside (Nat.lt_succ_of_le (gain_le ..))

/-- What an emitter knows is passed on to several others: nothing else is added and only
where calls lead to, and a call of its function by any of them is in order. -/
theorem spread_taught {before : Emission} {source : Nat} {emitter : Emitter}
    (found : before.emitters[source]? = some emitter) (wired : before.Wired)
    {targets : List Nat} (inside : ∀ target ∈ targets, target < before.emitters.length) :
    let after := targets.foldl (fun emission target => emission.mergeFrom source target) before
    Merged (fun id => ∃ target ∈ targets, before.Reaches target id) emitter.parameters
        emitter.domains before after ∧
      (∀ target ∈ targets, after.Contains source target) ∧ before.Keeps after := by
  intro after
  have each : ∀ reached, Merged (fun id => ∃ target ∈ targets, before.Reaches target id)
      emitter.parameters emitter.domains before reached → ∀ target ∈ targets,
        Merged (fun id => ∃ target ∈ targets, before.Reaches target id) emitter.parameters
          emitter.domains reached (reached.mergeFrom source target) ∧
        Taught emitter.parameters emitter.domains target reached
          (reached.mergeFrom source target) := by
    intro reached merged target member
    have here := merged.known_unchanged found (List.Subset.refl _) (List.Subset.refl _)
    simp only [mergeFrom, here]
    refine ⟨?_, ?_⟩
    · refine (mergeWithin_merged ..).mono ?_ (List.Subset.refl _) (List.Subset.refl _)
      intro id led
      exact ⟨target, member, by rwa [merged.reaches_eq] at led⟩
    · exact merge_taught (merged.wired wired) (by rw [merged.size]; exact inside target member) ..
  obtain ⟨known, kept⟩ := foldl_taught targets each (.refl before)
  have merged := Merged.foldl _ targets (.refl before) fun reached led target member =>
    (each reached led target member).1
  have here := merged.known_unchanged found (List.Subset.refl _) (List.Subset.refl _)
  refine ⟨merged, ?_, kept⟩
  intro target member
  have names : after.namesOf source = emitter.parameters := by
    rw [namesOf, here, Option.map_some, Option.getD_some]
  have imposed : after.keysOf source = keys emitter.domains := by
    rw [keysOf, here, Option.map_some, Option.getD_some]
  rw [Contains, names, imposed]
  exact known target member

end Emission

end EncoderTables.Generator
