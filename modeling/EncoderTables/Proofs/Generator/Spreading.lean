import EncoderTables.Proofs.Generator.Merging

/-!
# What a merge leaves behind

A merge goes on to the callers of an emitter only if the emitter has learned something, and it
gives them only what was new. It ends whatever the calls are, as there is less to learn with each
step. Where each caller knows all that the function it calls knows, it does not stop too early
either: everything that calls lead to from the target learns all that is given, everything else
stays as it is, and each caller knows all that the function it calls knows again.
-/

namespace EncoderTables.Generator

/-- What is missing of the entries that others miss, who know less, is what is missing of all. -/
theorem missingEntries_missingEntries {known told : List String} (inside : told ⊆ known)
    (entries : List (String × Domain)) :
    missingEntries known (missingEntries told entries) = missingEntries known entries := by
  induction entries generalizing known told with
  | nil => rfl
  | cons entry rest inductionHypothesis =>
    by_cases old : entry.1 ∈ told
    · have oldToo : entry.1 ∈ known := inside old
      simp [missingEntries, old, oldToo, inductionHypothesis inside]
    · by_cases here : entry.1 ∈ known
      · have learned : told ++ [entry.1] ⊆ known :=
          List.append_subset.mpr ⟨inside, by simpa using here⟩
        simp [missingEntries, old, here, inductionHypothesis learned]
      · have learned : told ++ [entry.1] ⊆ known ++ [entry.1] := by
          rw [List.append_subset]
          exact ⟨List.subset_append_of_subset_left _ inside, List.subset_append_right _ _⟩
        simp [missingEntries, old, here, inductionHypothesis learned]

/-- Names are the keys of entries, whatever the domains are. -/
theorem keys_map (names : List String) :
    keys (names.map fun name => (name, Domain.interval 0 0)) = names := by
  simp [keys, Function.comp_def]

/-- What is missing of the names that others miss, who know less, is what is missing of all. -/
theorem missingNames_missingNames {known told : List String} (inside : told ⊆ known)
    (names : List String) :
    missingNames known (missingNames told names) = missingNames known names := by
  have entered := congrArg keys (missingEntries_missingEntries inside
    (names.map fun name => (name, Domain.interval 0 0)))
  simpa only [keys_missingEntries, keys_map] using entered

/-- Missing entries stand in the order of the entries. -/
theorem missingEntries_sublist (known : List String) (entries : List (String × Domain)) :
    (missingEntries known entries).Sublist entries := by
  induction entries generalizing known with
  | nil => exact .slnil
  | cons entry rest inductionHypothesis =>
    unfold missingEntries
    split
    · exact (inductionHypothesis known).cons entry
    · exact (inductionHypothesis _).cons_cons entry

/-- Missing names stand in the order of the names. -/
theorem missingNames_sublist (known names : List String) :
    (missingNames known names).Sublist names := by
  have listed := (missingEntries_sublist known
    (names.map fun name => (name, Domain.interval 0 0))).map Prod.fst
  change (keys _).Sublist (keys _) at listed
  rwa [keys_missingEntries, keys_map] at listed

/-- What is new of names and entries to an emitter: each name that it has not recorded, and each
entry of a name on which it has not imposed a domain, once and in their order. -/
structure Emitter.IsNews (emitter : Emitter) (names : List String)
    (entries : List (String × Domain)) (added : List String) (given : List (String × Domain)) :
    Prop where
  names_iff : ∀ name, name ∈ added ↔ name ∈ names ∧ name ∉ emitter.parameters
  names_once : added.Nodup
  names_order : added.Sublist names
  keys_iff : ∀ key, key ∈ keys given ↔ key ∈ keys entries ∧ key ∉ keys emitter.domains
  keys_once : (keys given).Nodup
  entries_order : given.Sublist entries

/-- What an emitter takes over is what is new to it. -/
theorem Emitter.isNews_missing (emitter : Emitter) (names : List String)
    (entries : List (String × Domain)) :
    emitter.IsNews names entries (missingNames emitter.parameters names)
      (missingEntries (keys emitter.domains) entries) where
  names_iff name := mem_missingNames ..
  names_once := missingNames_nodup ..
  names_order := missingNames_sublist ..
  keys_iff key := by rw [keys_missingEntries, mem_missingNames]
  keys_once := by
    rw [keys_missingEntries]
    exact missingNames_nodup ..
  entries_order := missingEntries_sublist ..

namespace Emission

/-- What becomes of an emission when names and entries are told to several emitters, one after the
other. One that knows them all stays as it is. Any other takes over what it lacks and tells it to
its callers before the next one has its turn. -/
inductive Tells : List String → List (String × Domain) → Emission → List Nat → Emission → Prop where
  | done {names : List String} {entries : List (String × Domain)} {emission : Emission} :
    Tells names entries emission [] emission
  | known {names : List String} {entries : List (String × Domain)} {before after : Emission}
    {target : Nat} {rest : List Nat} (knows : before.Knows names entries target)
    (others : Tells names entries before rest after) :
    Tells names entries before (target :: rest) after
  | learned {names : List String} {entries : List (String × Domain)}
    {before middle after : Emission} {target : Nat} {rest : List Nat}
    (lacks : ¬ before.Knows names entries target)
    (callers : Tells (missingNames (before.namesOf target) names)
      (missingEntries (before.keysOf target) entries)
      (before.update target (·.absorb names entries)) (before.callersOf target) middle)
    (others : Tells names entries middle rest after) :
    Tells names entries before (target :: rest) after

/-- An emitter knows names and entries when there is nothing for it to learn. -/
theorem lack_eq_zero_iff {emission : Emission} {names : List String}
    {entries : List (String × Domain)} {id : Nat} :
    emission.lack names entries id = 0 ↔ emission.Knows names entries id := by
  simp only [lack, Knows, Nat.add_eq_zero_iff, List.length_eq_zero_iff, missingNames_eq_nil_iff]

namespace Tells

variable {names : List String} {entries : List (String × Domain)} {before middle after : Emission}
  {targets : List Nat}

/-- Some emitters are told before others. -/
theorem append {others : List Nat} (first : Tells names entries before targets middle)
    (second : Tells names entries middle others after) :
    Tells names entries before (targets ++ others) after := by
  induction first with
  | done => exact second
  | known knows _ inductionHypothesis => exact .known knows (inductionHypothesis second)
  | learned lacks callers _ _ inductionHypothesis =>
    exact .learned lacks callers (inductionHypothesis second)

/-- Telling has one outcome. -/
theorem unique {other : Emission} (told : Tells names entries before targets after)
    (again : Tells names entries before targets other) : after = other := by
  induction told generalizing other with
  | done =>
    cases again
    rfl
  | known knows _ inductionHypothesis =>
    cases again with
    | known _ others => exact inductionHypothesis others
    | learned lacks => exact absurd knows lacks
  | learned lacks _ _ callersHypothesis othersHypothesis =>
    cases again with
    | known knows => exact absurd knows lacks
    | learned _ callers others =>
      obtain rfl := callersHypothesis callers
      exact othersHypothesis others

/-- Emitters that are told one after the other. -/
theorem foldl (region : Nat → Prop) {step : Emission → Nat → Emission}
    (each : ∀ reached, Merged region names entries before reached → ∀ target ∈ targets,
      Merged region names entries reached (step reached target) ∧
        Tells names entries reached [target] (step reached target))
    (start : Merged region names entries before middle) :
    Tells names entries middle targets (targets.foldl step middle) := by
  induction targets generalizing middle with
  | nil => exact .done
  | cons target rest inductionHypothesis =>
    obtain ⟨merged, told⟩ := each middle start target List.mem_cons_self
    have others := inductionHypothesis
      (fun reached led other member => each reached led other (List.mem_cons_of_mem _ member))
      (start.trans merged)
    exact told.append others

end Tells

/-- A merge with enough fuel ends, and it tells its target what it is given. -/
theorem mergeWithin_tells (fuel : Nat) (names : List String) (entries : List (String × Domain))
    {before : Emission} {id : Nat} (wired : before.Wired) (inside : id < before.emitters.length)
    (enough : before.gain names entries < fuel) :
    Tells names entries before [id] (before.mergeWithin fuel names entries id) := by
  induction fuel generalizing names entries before id with
  | zero => omega
  | succ fuel inductionHypothesis =>
    rw [mergeWithin_succ]
    split
    · next nothing => exact .known (lack_eq_zero_iff.mp nothing) .done
    · next lacking =>
      refine .learned (mt lack_eq_zero_iff.mpr lacking) ?_ .done
      refine Tells.foldl (before.Reaches id) ?_ (.refl _)
      intro reached merged caller member
      obtain ⟨wiredToo, insideToo, less, next⟩ :=
        fuel_for_caller wired inside lacking enough merged member
      exact ⟨next, inductionHypothesis _ _ wiredToo insideToo less⟩

/-- A merge is what becomes of an emission when its target is told what is given, and nothing else
becomes of it. -/
theorem tells_iff {before after : Emission} {target : Nat} (wired : before.Wired)
    (inside : target < before.emitters.length) (names : List String)
    (entries : List (String × Domain)) :
    Tells names entries before [target] after ↔ after = before.merge target names entries := by
  have ends : Tells names entries before [target] (before.merge target names entries) :=
    mergeWithin_tells _ names entries wired inside (Nat.lt_succ_of_le (gain_le ..))
  constructor
  · exact fun told => told.unique ends
  · rintro rfl
    exact ends

/-- Every caller knows all that a function that it calls knows. -/
def Informed (emission : Emission) : Prop :=
  ∀ id, ∀ caller ∈ emission.callersOf id, emission.Contains id caller

/-- Some names and entries stand for all when they are told to an emitter, or to anyone who knows
what it knew at first: what is missing of them is what is missing of all. -/
structure Suffices (names : List String) (entries : List (String × Domain)) (original : Emission)
    (fewer : List String) (smaller : List (String × Domain)) (target : Nat) : Prop where
  names : ∀ known, original.namesOf target ⊆ known →
    missingNames known fewer = missingNames known names
  entries : ∀ known, original.keysOf target ⊆ known →
    missingEntries known smaller = missingEntries known entries

/-- What an emitter misses stands for all when it is told to its callers, who knew what it knew. -/
theorem Suffices.caller {names fewer : List String} {entries smaller : List (String × Domain)}
    {original : Emission} {target caller : Nat}
    (enough : Suffices names entries original fewer smaller target)
    (contained : original.Contains target caller) :
    Suffices names entries original (missingNames (original.namesOf target) fewer)
      (missingEntries (original.keysOf target) smaller) caller where
  names known covered := by
    have inside := List.Subset.trans contained.1 covered
    rw [missingNames_missingNames inside, enough.names known inside]
  entries known covered := by
    have inside := List.Subset.trans contained.2 covered
    rw [missingEntries_missingEntries inside, enough.entries known inside]

/-- On the way from one emission to another, some emitters have taken over names and entries, and
all others are as they were. -/
structure Partly (names : List String) (entries : List (String × Domain))
    (original reached : Emission) : Prop where
  calls : reached.callersOf = original.callersOf
  either : ∀ id : Nat, reached.emitters[id]? = original.emitters[id]? ∨
    reached.emitters[id]? = original.emitters[id]?.map (·.absorb names entries)

namespace Partly

variable {names fewer : List String} {entries smaller : List (String × Domain)}
  {original reached : Emission} {target : Nat}

/-- Nothing has been taken over. -/
theorem refl (emission : Emission) : Partly names entries emission emission where
  calls := rfl
  either _ := Or.inl rfl

/-- An emitter that misses something is as it was. -/
theorem unchanged (partly : Partly names entries original reached)
    (enough : Suffices names entries original fewer smaller target)
    (inside : target < original.emitters.length)
    (lacks : ¬ reached.Knows fewer smaller target) :
    reached.emitters[target]? = original.emitters[target]? := by
  rcases partly.either target with same | taken
  · exact same
  · -- An emitter that has taken everything over does not miss anything.
    refine absurd ?_ lacks
    have known : original.emitters[target]? = some original.emitters[target] :=
      List.getElem?_eq_getElem inside
    simp only [Knows, namesOf, keysOf, taken, known, Option.map_some, Option.getD_some]
    constructor
    · rw [← missingNames_eq_nil_iff, enough.names, missingNames_eq_nil_iff]
      · exact fun name given => (Emitter.mem_absorb_parameters ..).mpr (Or.inr given)
      · intro name old
        simp only [namesOf, known, Option.map_some, Option.getD_some] at old
        exact (Emitter.mem_absorb_parameters ..).mpr (Or.inl old)
    · rw [← missingNames_eq_nil_iff, ← keys_missingEntries, enough.entries, keys_missingEntries,
        missingNames_eq_nil_iff]
      · exact fun key given => (Emitter.mem_absorb_keys ..).mpr (Or.inr given)
      · intro key old
        simp only [keysOf, known, Option.map_some, Option.getD_some] at old
        exact (Emitter.mem_absorb_keys ..).mpr (Or.inl old)

/-- An emitter that is as it was takes over everything when it is told what stands for all. -/
theorem update (partly : Partly names entries original reached)
    (enough : Suffices names entries original fewer smaller target)
    (same : reached.emitters[target]? = original.emitters[target]?) :
    Partly names entries original (reached.update target (·.absorb fewer smaller)) where
  calls := funext fun id => by rw [(update_merged ..).callersOf_eq, partly.calls]
  either id := by
    rw [Emission.getElem?_update]
    by_cases here : target = id
    · subst here
      refine Or.inr ?_
      rw [if_pos rfl, same]
      cases known : original.emitters[target]? with
      | none => rfl
      | some emitter =>
        have own := enough.names emitter.parameters (by simp [namesOf, known])
        have imposed := enough.entries (keys emitter.domains) (by simp [keysOf, known])
        simp only [Option.map_some, Emitter.absorb, own, imposed]
    · rw [if_neg here]
      exact partly.either id

end Partly

/-- Where every caller knows all that the functions that it calls know, telling emitters what stands
for all gives everything to each emitter that changes. -/
theorem Tells.partly {original before after : Emission} {names fewer : List String}
    {entries smaller : List (String × Domain)} {targets : List Nat} (wired : original.Wired)
    (informed : original.Informed) (told : Tells fewer smaller before targets after)
    (enough : ∀ target ∈ targets, Suffices names entries original fewer smaller target)
    (inside : ∀ target ∈ targets, target < original.emitters.length)
    (partly : Partly names entries original before) : Partly names entries original after := by
  induction told with
  | done => exact partly
  | known _ _ inductionHypothesis =>
    exact inductionHypothesis (List.forall_mem_cons.mp enough).2
      (List.forall_mem_cons.mp inside).2 partly
  | @learned fewer smaller before middle after target rest lacks callers others callersHypothesis
      othersHypothesis =>
    obtain ⟨own, enough⟩ := List.forall_mem_cons.mp enough
    obtain ⟨here, inside⟩ := List.forall_mem_cons.mp inside
    have same := partly.unchanged own here lacks
    have names : before.namesOf target = original.namesOf target := by rw [namesOf, namesOf, same]
    have keys : before.keysOf target = original.keysOf target := by rw [keysOf, keysOf, same]
    refine othersHypothesis enough inside (callersHypothesis ?_ ?_ (partly.update own same))
    · intro caller member
      rw [partly.calls] at member
      rw [names, keys]
      exact own.caller (informed target caller member)
    · intro caller member
      rw [partly.calls] at member
      exact wired target caller member

/-- Where every caller knows all that the functions that it calls know, a merge leaves it so. -/
theorem informed_merge {before : Emission} (wired : before.Wired) (informed : before.Informed)
    {target : Nat} (inside : target < before.emitters.length) (names : List String)
    (entries : List (String × Domain)) : (before.merge target names entries).Informed := by
  intro id caller member
  have merged : Merged (before.Reaches target) names entries before
      (before.merge target names entries) := mergeWithin_merged ..
  rw [merged.callersOf_eq] at member
  exact (merge_taught wired inside names entries).keeps id caller member (informed id caller member)

/-- A merge tells what it is given to everything that calls lead to from its target. -/
theorem knows_merge {before : Emission} (wired : before.Wired) (informed : before.Informed)
    {target id : Nat} (inside : target < before.emitters.length) (names : List String)
    (entries : List (String × Domain)) (led : before.Reaches target id) :
    (before.merge target names entries).Knows names entries id := by
  have merged : Merged (before.Reaches target) names entries before
      (before.merge target names entries) := mergeWithin_merged ..
  induction led with
  | refl => exact (merge_taught wired inside names entries).knows
  | tail _ member inductionHypothesis =>
    rw [← merged.callersOf_eq] at member
    have called := informed_merge wired informed inside names entries _ _ member
    exact ⟨List.Subset.trans inductionHypothesis.1 called.1,
      List.Subset.trans inductionHypothesis.2 called.2⟩

/-- A merge gives what is new of names and entries to the emitters that calls lead to from its
target, and leaves all others as they are. -/
theorem emitters_merge {before : Emission} (wired : before.Wired) (informed : before.Informed)
    {target : Nat} (inside : target < before.emitters.length) (names : List String)
    (entries : List (String × Domain)) {id : Nat} {emitter : Emitter}
    (found : before.emitters[id]? = some emitter) :
    (before.Reaches target id →
      (before.merge target names entries).emitters[id]? = some (emitter.absorb names entries)) ∧
    (¬ before.Reaches target id →
      (before.merge target names entries).emitters[id]? = some emitter) := by
  constructor
  · intro led
    have ends := (tells_iff wired inside names entries).mpr rfl
    have all : Suffices names entries before names entries target :=
      ⟨fun _ _ => rfl, fun _ _ => rfl⟩
    have partly : Partly names entries before (before.merge target names entries) :=
      ends.partly wired informed (List.forall_mem_singleton.mpr all)
        (List.forall_mem_singleton.mpr inside) (.refl before)
    rcases partly.either id with same | taken
    · -- An emitter that is as it was knew everything.
      have knows := knows_merge wired informed inside names entries led
      simp only [Knows, namesOf, keysOf, same, found, Option.map_some, Option.getD_some,
        ← missingNames_eq_nil_iff, ← missingEntries_eq_nil_iff] at knows
      rw [same, found, Emitter.absorb, knows.1, knows.2, List.append_nil, List.append_nil]
    · rw [taken, found, Option.map_some]
  · intro apart
    have merged : Merged (before.Reaches target) names entries before
        (before.merge target names entries) := mergeWithin_merged ..
    obtain ⟨added, given, reached, addedLegal, givenLegal⟩ := merged.absorbed id emitter found
    have nothing : added = [] := List.eq_nil_iff_forall_not_mem.mpr fun name member =>
      apart (addedLegal name member).2
    have none : given = [] := List.eq_nil_iff_forall_not_mem.mpr fun entry member =>
      apart (givenLegal entry member).2
    rw [reached, nothing, none, Emitter.absorb_nil]

/-- Where callers are emitters, shared and cyclic calls included, and every caller knows all that
the functions that it calls know, a merge ends with one outcome. Afterwards every caller knows all
that the functions that it calls know again, and everything that calls lead to from the target knows
what was given. Nothing but the emitters has changed, and none of them has come or gone. What is new
to an emitter stands behind what it knew if calls lead to it from the target, and otherwise it has
not changed; so the domain that it has imposed on a parameter stays. -/
theorem merge_informs {before : Emission} (wired : before.Wired) (informed : before.Informed)
    {target : Nat} (inside : target < before.emitters.length) (names : List String)
    (entries : List (String × Domain)) :
    (∀ after, Tells names entries before [target] after ↔
      after = before.merge target names entries) ∧
    (before.merge target names entries).Informed ∧
    (∀ id, before.Reaches target id → (before.merge target names entries).Knows names entries id) ∧
    before.merge target names entries =
      { before with emitters := (before.merge target names entries).emitters } ∧
    (before.merge target names entries).emitters.length = before.emitters.length ∧
    ∀ (id : Nat) (emitter : Emitter), before.emitters[id]? = some emitter → ∃ added given,
      (before.merge target names entries).emitters[id]? = some
        { emitter with
          parameters := emitter.parameters ++ added
          domains := emitter.domains ++ given } ∧
      (before.Reaches target id → emitter.IsNews names entries added given) ∧
      (¬ before.Reaches target id → added = [] ∧ given = []) ∧
      ∀ name domain, emitter.domains.lookup name = some domain →
        (emitter.domains ++ given).lookup name = some domain := by
  have merged : Merged (before.Reaches target) names entries before
      (before.merge target names entries) := mergeWithin_merged ..
  have stays {known : List (String × Domain)} (given : List (String × Domain)) (name : String)
      (domain : Domain) (imposed : known.lookup name = some domain) :
      (known ++ given).lookup name = some domain := by
    rw [List.lookup_append, imposed, Option.some_or]
  refine ⟨fun after => tells_iff wired inside names entries,
    informed_merge wired informed inside names entries,
    fun id => knows_merge wired informed inside names entries, merged.frame, merged.size, ?_⟩
  intro id emitter found
  obtain ⟨taken, same⟩ := emitters_merge wired informed inside names entries found
  by_cases led : before.Reaches target id
  · exact ⟨_, _, taken led, fun _ => emitter.isNews_missing names entries,
      fun apart => absurd led apart, stays _⟩
  · exact ⟨[], [], by simp [same led], fun here => absurd here led, fun _ => ⟨rfl, rfl⟩, stays _⟩

instance (emission : Emission) (id caller : Nat) : Decidable (emission.Contains id caller) :=
  inferInstanceAs (Decidable (_ ∧ _))

/-- Three functions that call each other in a cycle, and one that calls all of them and itself. It
has recorded some of what the others are told, and imposed another domain. -/
def cyclicCalls : Emission :=
  { Emission.empty with
    emitters :=
      [⟨none, [], [], false, .listed [1, 3]⟩, ⟨none, [], [], false, .listed [2, 3]⟩,
        ⟨none, [], [], false, .listed [0, 3, 3]⟩,
        ⟨none, ["rel", "imm0"], [("imm0", .interval 0 1)], true, .listed [3]⟩] }

/-- A merge into the first of them ends, reaches all of them, and lets the domain of the last
stay. -/
theorem merge_informs_cyclicCalls :
    cyclicCalls.Wired ∧ cyclicCalls.Informed ∧ 1 < cyclicCalls.emitters.length ∧
      ∃ after, Tells ["imm0", "reg0", "imm0"] [("imm0", .interval 0 5)] cyclicCalls [1] after ∧
        after.Informed ∧ [1, 2, 0, 3].map after.namesOf =
          [["imm0", "reg0"], ["imm0", "reg0"], ["imm0", "reg0"], ["rel", "imm0", "reg0"]] ∧
        after.emitters[3]?.map (·.domains.lookup "imm0") = some (some (.interval 0 1)) := by
  have calls (id : Nat) :
      cyclicCalls.callersOf id = ([[1, 3], [2, 3], [0, 3, 3], [3]][id]?).getD [] := by
    match id with
    | 0 | 1 | 2 | 3 => rfl
    | id + 4 => simp [callersOf, cyclicCalls]
  have wired : cyclicCalls.Wired := by
    intro id
    rw [calls]
    match id with
    | 0 | 1 | 2 | 3 => decide
    | id + 4 => simp
  have informed : cyclicCalls.Informed := by
    intro id
    rw [calls]
    match id with
    | 0 | 1 | 2 | 3 => decide
    | id + 4 => simp
  have inside : 1 < cyclicCalls.emitters.length := by decide
  obtain ⟨ends, after, -⟩ := merge_informs wired informed inside ["imm0", "reg0", "imm0"]
    [("imm0", .interval 0 5)]
  exact ⟨wired, informed, inside, _, (ends _).mpr rfl, after, by decide, by decide⟩

end Emission

end EncoderTables.Generator
