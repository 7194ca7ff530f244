import EncoderTables.Proofs.Generator.ExpressionTexts
import EncoderTables.Proofs.Parameters.FieldOrder
import EncoderTables.Proofs.Parameters.Grouping
import Mathlib.Data.List.Fold
import Mathlib.Tactic.Ring

/-!
# Packing of known parameters

A layout of known parameters is described without its computation: which fields it has,
which of them share a group, how fields and groups are ordered and how wide they are
together. The fields are sorted before they are grouped, and fields of distinct names can be
sorted in one way only, so the order in which the parameters are given leaves no trace.
Unions may overlap and list names that are no fields; a field joins the first that lists it.
-/

namespace EncoderTables.Parameters

namespace Slot

/-- The fields of a parameter: one for its value, and a flag of one bit if it may be left
unspecified. -/
inductive BelongsTo (basic : Bool) (name : String) : Slot → Prop
  | value {width : Nat} (found : fieldWidth name basic = .ok width) :
    BelongsTo basic name ⟨name, width, holdsSigned name⟩
  | flag (optional : isOptional name = true) : BelongsTo basic name ⟨presenceFlag name, 1, false⟩

/-- A field is before another strictly: by width, then by name. -/
def Before (first second : Slot) : Prop :=
  first.width < second.width ∨ first.width = second.width ∧ first.name < second.name

/-- A field that precedes one of another name is before it. -/
theorem before_of_precedes {first second : Slot} (precedes : first.precedes second = true)
    (different : first.name ≠ second.name) : first.Before second := by
  rcases (precedes_iff first second).mp precedes with narrower | ⟨same, before⟩
  · exact .inl narrower
  · exact .inr ⟨same, lt_of_le_of_ne before different⟩

/-- The name of a field tells the parameter and the field. -/
theorem BelongsTo.eq_of_name {basic : Bool} {name other : String} {first second : Slot}
    (known : isKnown name = true) (alsoKnown : isKnown other = true)
    (one : BelongsTo basic name first) (two : BelongsTo basic other second)
    (same : first.name = second.name) : name = other ∧ first = second := by
  cases one with
  | value found =>
    cases two with
    | value foundToo =>
      obtain rfl : name = other := same
      rw [found] at foundToo
      cases foundToo
      exact ⟨rfl, rfl⟩
    | flag optional => exact absurd same (Generator.ne_presenceFlag known optional)
  | flag optional =>
    cases two with
    | value foundToo => exact absurd same.symm (Generator.ne_presenceFlag alsoKnown optional)
    | flag _ =>
      obtain rfl : name = other := by
        have letters := congrArg String.toList same
        simp only [presenceFlag, String.toList_append] at letters
        exact String.toList_inj.mp (List.append_cancel_right letters)
      exact ⟨rfl, rfl⟩

/-- The width of a known parameter's field is known, also in the basic structure. -/
theorem fieldWidth_ok {name : String} (known : isKnown name = true) (basic : Bool) :
    ∃ width, fieldWidth name basic = .ok width := by
  obtain ⟨width, found⟩ := Option.isSome_iff_exists.mp known
  unfold fieldWidth
  split
  · exact ⟨_, rfl⟩
  · exact ⟨width, by rw [found]⟩

/-- The fields of a known parameter, each of them once. -/
theorem ofParameter_ok {name : String} (known : isKnown name = true) (basic : Bool) :
    ∃ fields, ofParameter basic name = .ok fields ∧
      (∀ field, field ∈ fields ↔ BelongsTo basic name field) ∧
      (fields.map (·.name)).Nodup := by
  obtain ⟨width, found⟩ := fieldWidth_ok known basic
  refine ⟨_, by simp only [ofParameter, found]; rfl, ?_, ?_⟩
  · intro field
    constructor
    · intro member
      rcases List.mem_cons.mp member with rfl | flagged
      · exact .value found
      · split at flagged
        · next optional => exact List.mem_singleton.mp flagged ▸ .flag optional
        · cases flagged
    · rintro (foundToo | optional)
      · rw [found] at foundToo
        cases foundToo
        exact List.mem_cons_self
      · simp [optional]
  · cases optional : isOptional name with
    | false => simp
    | true => simpa using Generator.ne_presenceFlag known optional

/-- The fields of known parameters, each of them once. -/
theorem ofParameters_ok {names : List String} (basic : Bool) (distinct : names.Nodup)
    (known : ∀ name ∈ names, isKnown name = true) :
    ∃ fields, ofParameters basic names = .ok fields ∧
      (∀ field, field ∈ fields ↔ ∃ name ∈ names, BelongsTo basic name field) ∧
      (fields.map (·.name)).Nodup := by
  induction names with
  | nil => exact ⟨[], rfl, by simp, by simp⟩
  | cons name rest inductionHypothesis =>
    obtain ⟨fresh, distinctRest⟩ := List.nodup_cons.mp distinct
    obtain ⟨knownName, knownRest⟩ := List.forall_mem_cons.mp known
    obtain ⟨own, foundOwn, membersOwn, onceOwn⟩ := ofParameter_ok knownName basic
    obtain ⟨others, foundOthers, membersOthers, onceOthers⟩ :=
      inductionHypothesis distinctRest knownRest
    refine ⟨own ++ others, by simp only [ofParameters, foundOwn, foundOthers]; rfl, ?_, ?_⟩
    · intro field
      simp [membersOwn, membersOthers]
    · rw [List.map_append, List.nodup_append]
      refine ⟨onceOwn, onceOthers, ?_⟩
      intro label inOwn otherLabel inOthers same
      obtain ⟨first, memberOwn, rfl⟩ := List.mem_map.mp inOwn
      obtain ⟨second, memberOthers, rfl⟩ := List.mem_map.mp inOthers
      obtain ⟨other, listed, belongs⟩ := (membersOthers second).mp memberOthers
      obtain ⟨rfl, -⟩ := ((membersOwn first).mp memberOwn).eq_of_name knownName
        (knownRest other listed) belongs same
      exact fresh listed

end Slot

/-- The union at a position is the first that lists a name. -/
def FirstUnion (unions : List (List String)) (name : String) (position : Nat) : Prop :=
  (∃ union, unions[position]? = some union ∧ name ∈ union) ∧
    ∀ earlier ∈ unions.take position, name ∉ earlier

/-- The first union that lists a field is the one whose group it joins. -/
theorem GroupKey.ofField_eq_shared_iff {unions : List (List String)} {name : String}
    {position : Nat} : ofField unions name = shared position ↔ FirstUnion unions name position := by
  have found : ofField unions name = shared position ↔
      unions.findIdx? (·.contains name) = some position := by
    unfold ofField
    split
    · next union here => rw [here, shared.injEq, Option.some.injEq]
    · next nowhere => simp only [nowhere, reduceCtorEq]
  rw [found, List.findIdx?_eq_some_iff_getElem]
  constructor
  · rintro ⟨inside, listed, earlier⟩
    refine ⟨⟨unions[position], List.getElem?_eq_getElem inside, by simpa using listed⟩, ?_⟩
    intro union before
    obtain ⟨index, smaller, rfl⟩ := List.mem_take_iff_getElem.mp before
    simpa using earlier index (by omega)
  · rintro ⟨⟨union, there, listed⟩, earlier⟩
    obtain ⟨inside, rfl⟩ := List.getElem?_eq_some_iff.mp there
    refine ⟨inside, by simpa using listed, ?_⟩
    intro index smaller
    simpa using earlier _ (List.mem_take_iff_getElem.mpr ⟨index, by omega, rfl⟩)

/-- Two different fields have the same group exactly when they are listed and the first
unions that list them are the same. -/
theorem GroupKey.ofField_eq_iff_first {unions : List (List String)} {first second : String}
    (different : first ≠ second) :
    ofField unions first = ofField unions second ↔
      ∃ position, FirstUnion unions first position ∧ FirstUnion unions second position := by
  constructor
  · intro same
    cases key : ofField unions first with
    | shared position =>
      exact ⟨position, ofField_eq_shared_iff.mp key, ofField_eq_shared_iff.mp (same ▸ key)⟩
    | single name =>
      -- A group of its own carries the name of its field.
      have own {label : String} (alone : ofField unions label = single name) : label = name := by
        unfold ofField at alone
        split at alone
        · cases alone
        · exact single.inj alone
      exact absurd ((own key).trans (own (same.symm.trans key)).symm) different
  · rintro ⟨position, one, two⟩
    rw [ofField_eq_shared_iff.mpr one, ofField_eq_shared_iff.mpr two]

namespace Layout

/-- The width of a widest field. -/
def IsWidest (fields : List Slot) (width : Nat) : Prop :=
  (∃ field ∈ fields, field.width = width) ∧ ∀ field ∈ fields, field.width ≤ width

/-- What a layout of parameters is, for unions of any kind. -/
structure Packs (layout : Layout) (basic : Bool) (unions : List (List String))
    (names : List String) : Prop where
  kind : layout.basic = basic
  /-- The fields are those of the parameters. -/
  fields : ∀ field, field ∈ layout.groups.flatten ↔ ∃ name ∈ names, Slot.BelongsTo basic name field
  /-- A field is in one group, and there once. -/
  once : layout.names.Nodup
  nonempty : ∀ group ∈ layout.groups, group ≠ []
  /-- Fields share a group when they are listed and their first unions are the same. -/
  together : ∀ first ∈ layout.names, ∀ second ∈ layout.names, first ≠ second →
    (layout.Shares first second ↔
      ∃ position, FirstUnion unions first position ∧ FirstUnion unions second position)
  within : ∀ group ∈ layout.groups, group.Pairwise Slot.Before
  across : layout.groups.Pairwise fun former later =>
    ∀ first ∈ former.head?, ∀ second ∈ later.head?, first.Before second
  /-- The width is the sum of the widths of the widest fields. -/
  total : ∃ widths, List.Forall₂ IsWidest layout.groups widths ∧ layout.width = widths.sum

section Groups

variable (unions : List (List String))

/-- The groups of some fields and a last one. -/
theorem keyedGroups_concat (fields : List Slot) (field : Slot) :
    keyedGroups unions (fields ++ [field]) =
      place (.ofField unions field.name) field (keyedGroups unions fields) := by
  simp [keyedGroups]

/-- Placing a field keeps the other ones. -/
theorem perm_place (key : GroupKey) (field : Slot) (groups : List (GroupKey × List Slot)) :
    ((place key field groups).map (·.2)).flatten.Perm
      ((groups.map (·.2)).flatten ++ [field]) := by
  induction groups with
  | nil => simp [place]
  | cons group rest inductionHypothesis =>
    obtain ⟨first, fields⟩ := group
    rw [place]
    split
    · simp only [List.map_cons, List.flatten_cons, List.append_assoc]
      exact List.Perm.append_left _ List.perm_append_comm
    · simp only [List.map_cons, List.flatten_cons, List.append_assoc]
      exact inductionHypothesis.append_left _

/-- Grouping neither drops nor repeats a field. -/
theorem perm_group (fields : List Slot) : (group unions fields).flatten.Perm fields := by
  induction fields using List.reverseRecOn with
  | nil => exact .refl _
  | append_singleton fields field inductionHypothesis =>
    change ((keyedGroups unions (fields ++ [field])).map (·.2)).flatten.Perm _
    rw [keyedGroups_concat]
    exact (perm_place ..).trans (inductionHypothesis.append_right _)

/-- A placed field is the last one of its group. -/
theorem place_sublist {key : GroupKey} {field : Slot} {fields : List Slot}
    {groups : List (GroupKey × List Slot)}
    (former : ∀ group ∈ groups, group.2 ≠ [] ∧ group.2.Sublist fields) :
    ∀ group ∈ place key field groups, group.2 ≠ [] ∧ group.2.Sublist (fields ++ [field]) := by
  have longer {part : List Slot} (sublist : part.Sublist fields) :
      part.Sublist (fields ++ [field]) := sublist.trans (List.sublist_append_left ..)
  induction groups with
  | nil => simp [place]
  | cons group rest inductionHypothesis =>
    obtain ⟨first, members⟩ := group
    obtain ⟨⟨filled, own⟩, others⟩ := List.forall_mem_cons.mp former
    rw [place]
    split
    · refine List.forall_mem_cons.mpr ⟨⟨by simp, own.append_right _⟩, ?_⟩
      exact fun group member => ⟨(others group member).1, longer (others group member).2⟩
    · exact List.forall_mem_cons.mpr ⟨⟨filled, longer own⟩, inductionHypothesis others⟩

/-- Each group lists some of the fields, in their order, and at least one. -/
theorem group_sublist (fields : List Slot) :
    ∀ part ∈ group unions fields, part ≠ [] ∧ part.Sublist fields := by
  suffices ∀ entry ∈ keyedGroups unions fields, entry.2 ≠ [] ∧ entry.2.Sublist fields by
    intro part member
    obtain ⟨entry, listed, rfl⟩ := List.mem_map.mp member
    exact this entry listed
  induction fields using List.reverseRecOn with
  | nil => simp [keyedGroups]
  | append_singleton fields field inductionHypothesis =>
    rw [keyedGroups_concat]
    exact place_sublist inductionHypothesis

/-- A placed field is the first one of its group only when the group is a new last one. -/
theorem heads_place (key : GroupKey) (field : Slot) {groups : List (GroupKey × List Slot)}
    (filled : ∀ part ∈ groups.map (·.2), part ≠ []) :
    (((place key field groups).map (·.2)).filterMap List.head?).Sublist
      ((groups.map (·.2)).filterMap List.head? ++ [field]) := by
  induction groups with
  | nil => simp [place]
  | cons group rest inductionHypothesis =>
    obtain ⟨first, members⟩ := group
    obtain ⟨own, others⟩ := List.forall_mem_cons.mp filled
    obtain ⟨head, tail, rfl⟩ := List.exists_cons_of_ne_nil own
    rw [place]
    split
    · exact List.sublist_append_left ..
    · simpa using inductionHypothesis others

/-- The groups are in the order of their first fields. -/
theorem heads_group (fields : List Slot) :
    ((group unions fields).filterMap List.head?).Sublist fields := by
  induction fields using List.reverseRecOn with
  | nil => simp [group]
  | append_singleton fields field inductionHypothesis =>
    change (((keyedGroups unions (fields ++ [field])).map (·.2)).filterMap List.head?).Sublist _
    rw [keyedGroups_concat]
    refine (heads_place _ field ?_).trans (inductionHypothesis.append_right _)
    exact fun part member => (group_sublist unions fields part member).1

end Groups

/-- The width of a group with a field is that of a widest one. -/
theorem isWidest_groupWidth {fields : List Slot} (filled : fields ≠ []) :
    IsWidest fields (groupWidth fields) := by
  have folded : groupWidth fields = (fields.map (·.width)).foldr max 0 := by
    rw [groupWidth, List.foldl_eq_foldr]
  rw [folded]
  clear folded
  induction fields with
  | nil => exact absurd rfl filled
  | cons field rest inductionHypothesis =>
    rw [List.map_cons, List.foldr_cons]
    cases rest with
    | nil => simp [IsWidest]
    | cons second others =>
      obtain ⟨⟨widest, member, same⟩, bound⟩ := inductionHypothesis (by simp)
      refine ⟨?_, List.forall_mem_cons.mpr ⟨le_max_left .., fun other listed =>
        (bound other listed).trans (le_max_right ..)⟩⟩
      rcases max_choice field.width (((second :: others).map (·.width)).foldr max 0)
        with own | later
      · exact ⟨field, List.mem_cons_self, own.symm⟩
      · exact ⟨widest, List.mem_cons_of_mem _ member, same.trans later.symm⟩

/-- Fields of distinct names are sorted strictly. -/
theorem ordered_before {fields : List Slot} (distinct : (fields.map (·.name)).Nodup) :
    (ordered fields).Pairwise Slot.Before := by
  have names : ((ordered fields).map (·.name)).Nodup :=
    ((List.mergeSort_perm fields Slot.precedes).map (·.name)).nodup_iff.mpr distinct
  have sorted := List.pairwise_mergeSort Slot.precedes_trans Slot.precedes_total fields
  exact sorted.imp₂ (fun _ _ => Slot.before_of_precedes) (List.pairwise_map.mp names)

/-- Fields of distinct names are sorted alike, however they are arranged. -/
theorem ordered_eq_of_perm {fields others : List Slot}
    (distinct : (fields.map (·.name)).Nodup) (arranged : others.Perm fields) :
    ordered others = ordered fields :=
  eq_ordered distinct ((List.mergeSort_perm others Slot.precedes).trans arranged)
    (List.pairwise_mergeSort Slot.precedes_trans Slot.precedes_total others)

/-- A whole number that is shifted is multiplied by a power of ten. -/
theorem shifted_eq (places : Nat) (value : Int) :
    Scalar.shifted places value = value * 10 ^ places := by
  induction places with
  | zero => simp [Scalar.shifted]
  | succ places inductionHypothesis =>
    rw [Scalar.shifted, inductionHypothesis, pow_succ]
    ring

/-- The number of bits in a number of words is an exact multiple. -/
theorem times_of_ratio {budget : Scalar} {amount : Int} {places : Nat}
    (number : budget.ratio? = some (amount, places)) :
    ∃ available, budget.times? wordBits = some available ∧
      available.ratio? = some (64 * amount, places) := by
  cases budget with
  | decimal | number | truth =>
    cases number
    exact ⟨_, rfl, rfl⟩
  | text | record | absent => cases number

/-- A width is compared with the exact number of bits in a number of words. -/
theorem atMost_iff {available : Scalar} {amount : Int} {places : Nat}
    (number : available.ratio? = some (amount, places)) (width : Nat) :
    Scalar.atMost? (.number width) available = some true ↔
      width * 10 ^ places ≤ amount := by
  have own : Scalar.ratio? (.number width) = some ((width : Int), 0) := rfl
  simp [Scalar.atMost?, own, number, shifted_eq]

/-- The layout of fields that belong to parameters and have distinct names. -/
theorem packs_group {basic : Bool} (unions : List (List String)) {names : List String}
    {fields : List Slot}
    (members : ∀ field, field ∈ fields ↔ ∃ name ∈ names, Slot.BelongsTo basic name field)
    (distinct : (fields.map (·.name)).Nodup) :
    Packs ⟨basic, group unions (ordered fields)⟩ basic unions names := by
  have arranged : (group unions (ordered fields)).flatten.Perm fields :=
    (perm_group unions _).trans (List.mergeSort_perm fields Slot.precedes)
  have before := ordered_before distinct
  have sublists := group_sublist unions (ordered fields)
  exact {
    kind := rfl
    fields := fun field => arranged.mem_iff.trans (members field)
    once := (arranged.map Slot.name).nodup_iff.mpr distinct
    nonempty := fun part member => (sublists part member).1
    together := by
      intro first one second two different
      have listed {name : String}
          (found : name ∈ Layout.names ⟨basic, group unions (ordered fields)⟩) :
          name ∈ (ordered fields).map (·.name) :=
        ((perm_group unions (ordered fields)).map (·.name)).mem_iff.mp found
      rw [shares_group_iff (listed one) (listed two), GroupKey.ofField_eq_iff_first different]
    within := fun part member => before.sublist (sublists part member).2
    across := List.pairwise_filterMap.mp (before.sublist (heads_group unions _))
    total := by
      refine ⟨(group unions (ordered fields)).map groupWidth, ?_, rfl⟩
      rw [List.forall₂_map_right_iff, List.forall₂_same]
      exact fun part member => isWidest_groupWidth (sublists part member).1 }

/-- Known parameters of distinct names are packed, whatever the unions are: the layout has
their fields in the groups and in the order described, and it is refused exactly when it is
wider than the given number of words. Every arrangement of the parameters gives the same
layout or the same refusal. -/
theorem make_packs {names : List String} {budget : Scalar} {amount : Int} {places : Nat}
    (basic : Bool) (unions : List (List String)) (distinct : names.Nodup)
    (known : ∀ name ∈ names, isKnown name = true)
    (number : budget.ratio? = some (amount, places)) :
    ∃ layout : Layout, layout.Packs basic unions names ∧
      ∃ available, budget.times? wordBits = some available ∧
        ∀ arranged : List String, arranged.Perm names →
          make arranged basic unions budget =
            if 64 * amount < layout.width * 10 ^ places then
              refuse (.fieldSetTooWide layout.width available.plain)
            else .ok layout := by
  obtain ⟨fields, found, members, once⟩ := Slot.ofParameters_ok basic distinct known
  obtain ⟨available, times, multiple⟩ := times_of_ratio number
  have compared := atMost_iff multiple
  refine ⟨_, packs_group unions members once, available, times, ?_⟩
  intro arranged permuted
  obtain ⟨others, foundOthers, membersOthers, onceOthers⟩ := Slot.ofParameters_ok basic
    (permuted.nodup_iff.mpr distinct) fun name listed => known name (permuted.mem_iff.mp listed)
  have sameFields : others.Perm fields := by
    refine (List.perm_ext_iff_of_nodup onceOthers.of_map once.of_map).mpr fun field => ?_
    simp only [membersOthers, members, permuted.mem_iff]
  rw [make, foundOthers]
  dsimp only [bind, Except.bind]
  rw [times, ordered_eq_of_perm once sameFields]
  by_cases wide : 64 * amount <
      (Layout.width ⟨basic, group unions (ordered fields)⟩ : Int) * 10 ^ places
  · rw [if_pos wide]
    exact if_neg (mt (compared _).mp (not_le.mpr wide))
  · rw [if_neg wide]
    exact if_pos ((compared _).mpr (not_lt.mp wide))

/-- Five parameters in two and a half words, with a field that both unions list and names that
are no fields. -/
theorem make_packs_overlapping :
    ["reg1", "disp", "imm0", "reg0", "moffs"].Nodup ∧
      (∀ name ∈ ["reg1", "disp", "imm0", "reg0", "moffs"], isKnown name = true) ∧
      (Scalar.decimal 25 1).ratio? = some (25, 1) ∧
      ∃ layout : Layout,
        layout.Packs false [["imm0", "nowhere"], ["imm0", "moffs", "disp", "reg0_set"]]
          ["reg1", "disp", "imm0", "reg0", "moffs"] ∧
        ∃ available, (Scalar.decimal 25 1).times? wordBits = some available ∧
          ∀ arranged : List String, arranged.Perm ["reg1", "disp", "imm0", "reg0", "moffs"] →
            make arranged false [["imm0", "nowhere"], ["imm0", "moffs", "disp", "reg0_set"]]
                (.decimal 25 1) =
              if 64 * 25 < (layout.width : Int) * 10 ^ 1 then
                refuse (.fieldSetTooWide layout.width available.plain)
              else .ok layout := by
  have distinct : ["reg1", "disp", "imm0", "reg0", "moffs"].Nodup := by decide
  have known : ∀ name ∈ ["reg1", "disp", "imm0", "reg0", "moffs"], isKnown name = true := by
    decide
  exact ⟨distinct, known, rfl, make_packs false _ distinct known rfl⟩

end Layout

end EncoderTables.Parameters
