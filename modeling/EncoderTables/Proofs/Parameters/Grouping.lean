import EncoderTables.Parameters.Layout
import EncoderTables.Proofs.Generator.Missing
import EncoderTables.Proofs.Results
import Mathlib.Data.List.Induction

/-!
# Groups of fields

Fields are collected by the keys of their groups, so a group holds all fields of its key and
no others. Two fields therefore share storage exactly when one union lists both of them, as
long as no two unions list the same field.
-/

namespace EncoderTables.Parameters

/-- Two different fields have the same group exactly when a union lists both, provided that no
field is in two unions. -/
theorem GroupKey.ofField_eq_iff {unions : List (List String)}
    (apart : unions.Pairwise List.Disjoint) {first second : String} (different : first ≠ second) :
    ofField unions first = ofField unions second ↔
      ∃ union ∈ unions, first ∈ union ∧ second ∈ union := by
  constructor
  · intro same
    cases found : unions.findIdx? (·.contains first) with
    | none =>
      cases other : unions.findIdx? (·.contains second) with
      | none =>
        simp only [ofField, found, other, single.injEq] at same
        exact absurd same different
      | some position => simp only [ofField, found, other, reduceCtorEq] at same
    | some position =>
      cases other : unions.findIdx? (·.contains second) with
      | none => simp only [ofField, found, other, reduceCtorEq] at same
      | some place =>
        simp only [ofField, found, other, shared.injEq] at same
        subst same
        obtain ⟨inside, here, -⟩ := List.findIdx?_eq_some_iff_getElem.mp found
        obtain ⟨_, there, -⟩ := List.findIdx?_eq_some_iff_getElem.mp other
        exact ⟨unions[position], List.getElem_mem inside, by simpa using here, by
          simpa using there⟩
  · rintro ⟨union, listed, here, there⟩
    obtain ⟨position, inside, rfl⟩ := List.getElem_of_mem listed
    -- No earlier union lists one of the fields, since the later one does.
    have only {name : String} (member : name ∈ unions[position]) :
        unions.findIdx? (·.contains name) = some position := by
      refine List.findIdx?_eq_some_iff_getElem.mpr ⟨inside, by simpa using member, ?_⟩
      intro earlier before
      have disjoint := List.pairwise_iff_getElem.mp apart earlier position (by omega) inside before
      simpa using fun known => disjoint known member
    rw [ofField, ofField, only here, only there]

namespace Layout

/-- The groups of fields with their keys. -/
def keyedGroups (unions : List (List String)) (fields : List Slot) :
    List (GroupKey × List Slot) :=
  fields.foldl (fun groups field => place (.ofField unions field.name) field groups) []

/-- A field that is placed is behind the other fields of its group. -/
theorem lookup_place (key other : GroupKey) (field : Slot)
    (groups : List (GroupKey × List Slot)) :
    (place key field groups).lookup other =
      if other = key then some ((groups.lookup key).getD [] ++ [field])
      else groups.lookup other := by
  induction groups with
  | nil => simp [place, Generator.lookup_cons_ite]
  | cons group rest inductionHypothesis =>
    obtain ⟨first, fields⟩ := group
    rw [place]
    split
    · next same =>
      subst same
      by_cases here : other = first <;> simp [Generator.lookup_cons_ite, here]
    · next different =>
      simp only [Generator.lookup_cons_ite, inductionHypothesis]
      by_cases here : other = first
      · subst here
        rw [if_pos rfl, if_neg different]
        rw [if_pos rfl]
      · rw [if_neg here, if_neg here, if_neg (Ne.symm different)]

/-- A group that is found holds all fields of its key. -/
theorem lookup_keyedGroups (unions : List (List String)) (fields : List Slot)
    (key : GroupKey) :
    ((keyedGroups unions fields).lookup key).getD [] =
      fields.filter fun field => GroupKey.ofField unions field.name = key := by
  induction fields using List.reverseRecOn with
  | nil => rfl
  | append_singleton fields field inductionHypothesis =>
    have step : keyedGroups unions (fields ++ [field]) =
        place (.ofField unions field.name) field (keyedGroups unions fields) := by
      simp [keyedGroups]
    rw [step, lookup_place, List.filter_append]
    by_cases own : key = GroupKey.ofField unions field.name
    · subst own
      simp [inductionHypothesis]
    · simp [own, inductionHypothesis, Ne.symm own]

/-- Groups whose fields all have the key stay so when a field is placed. -/
theorem keys_place {unions : List (List String)} {groups : List (GroupKey × List Slot)}
    (sorted : ∀ group ∈ groups, ∀ field ∈ group.2,
      GroupKey.ofField unions field.name = group.1) (field : Slot) :
    ∀ group ∈ place (.ofField unions field.name) field groups, ∀ member ∈ group.2,
      GroupKey.ofField unions member.name = group.1 := by
  induction groups with
  | nil => simp [place]
  | cons group rest inductionHypothesis =>
    obtain ⟨first, fields⟩ := group
    obtain ⟨own, others⟩ := List.forall_mem_cons.mp sorted
    rw [place]
    split
    · next same =>
      refine List.forall_mem_cons.mpr ⟨?_, others⟩
      intro member inside
      rcases List.mem_append.mp inside with former | last
      · exact own member former
      · rw [List.mem_singleton.mp last]
        exact same.symm
    · exact List.forall_mem_cons.mpr ⟨own, inductionHypothesis others⟩

/-- All fields of a group have its key. -/
theorem keys_keyedGroups (unions : List (List String)) (fields : List Slot) :
    ∀ group ∈ keyedGroups unions fields, ∀ field ∈ group.2,
      GroupKey.ofField unions field.name = group.1 := by
  induction fields using List.reverseRecOn with
  | nil => simp [keyedGroups]
  | append_singleton fields field inductionHypothesis =>
    have step : keyedGroups unions (fields ++ [field]) =
        place (.ofField unions field.name) field (keyedGroups unions fields) := by
      simp [keyedGroups]
    rw [step]
    exact keys_place inductionHypothesis field

/-- Two names belong to fields of one group. -/
def Shares (layout : Layout) (first second : String) : Prop :=
  ∃ group ∈ layout.groups, first ∈ group.map (·.name) ∧ second ∈ group.map (·.name)

/-- Fields that are collected share storage exactly when they have the same key. -/
theorem shares_group_iff {basic : Bool} {unions : List (List String)} {fields : List Slot}
    {first second : String} (one : first ∈ fields.map (·.name))
    (two : second ∈ fields.map (·.name)) :
    Shares ⟨basic, group unions fields⟩ first second ↔
      GroupKey.ofField unions first = GroupKey.ofField unions second := by
  constructor
  · rintro ⟨_, listed, here, there⟩
    obtain ⟨group, member, rfl⟩ := List.mem_map.mp listed
    obtain ⟨field, inside, rfl⟩ := List.mem_map.mp here
    obtain ⟨other, within, rfl⟩ := List.mem_map.mp there
    have keys := keys_keyedGroups unions fields group member
    exact (keys field inside).trans (keys other within).symm
  · intro same
    obtain ⟨field, inside, rfl⟩ := List.mem_map.mp one
    obtain ⟨other, within, rfl⟩ := List.mem_map.mp two
    have all := lookup_keyedGroups unions fields (GroupKey.ofField unions field.name)
    cases found : (keyedGroups unions fields).lookup (GroupKey.ofField unions field.name) with
    | none =>
      have none : field ∈ ([] : List Slot) := by
        rw [found, Option.getD_none] at all
        rw [all]
        simp [inside]
      cases none
    | some members =>
      rw [found, Option.getD_some] at all
      obtain ⟨former, later, listed, -⟩ := List.lookup_eq_some_iff.mp found
      refine ⟨members, List.mem_map.mpr ⟨_, listed ▸ List.mem_append_right former
        List.mem_cons_self, rfl⟩, ?_, ?_⟩
      · exact List.mem_map_of_mem (by rw [all]; simp [inside])
      · exact List.mem_map_of_mem (by rw [all]; simp [within, same])

/-- Each parameter has a field. -/
theorem ofParameters_names {basic : Bool} {names : List String} {fields : List Slot}
    (made : Slot.ofParameters basic names = .ok fields) {name : String} (member : name ∈ names) :
    name ∈ fields.map (·.name) := by
  induction names generalizing fields with
  | nil => cases member
  | cons first rest inductionHypothesis =>
    simp only [Slot.ofParameters, Slot.ofParameter, Results.bind_ok_iff,
      Results.pure_ok_iff] at made
    obtain ⟨_, ⟨width, -, rfl⟩, others, remaining, rfl⟩ := made
    rcases List.mem_cons.mp member with rfl | later
    · simp
    · have known := inductionHypothesis remaining later
      rw [List.map_append, List.mem_append]
      exact .inr known

/-- In a layout two different parameters share storage exactly when one of the unions, no two
of which list the same field, lists both. -/
theorem shares_iff {names : List String} {basic : Bool} {unions : List (List String)}
    {budget : Scalar} {layout : Layout} (made : make names basic unions budget = .ok layout)
    (apart : unions.Pairwise List.Disjoint) {first second : String} (different : first ≠ second)
    (one : first ∈ names) (two : second ∈ names) :
    layout.Shares first second ↔ ∃ union ∈ unions, first ∈ union ∧ second ∈ union := by
  simp only [make, Results.bind_ok_iff] at made
  obtain ⟨fields, found, made⟩ := made
  have grouped : layout = ⟨basic, group unions (ordered fields)⟩ := by
    split at made
    · simp at made
    · split at made
      · exact ((Results.pure_ok_iff ..).mp made).symm
      · simp at made
  have listed {name : String} (member : name ∈ names) : name ∈ (ordered fields).map (·.name) := by
    have all := List.mergeSort_perm fields Slot.precedes
    exact (all.map (·.name)).mem_iff.mpr (ofParameters_names found member)
  rw [grouped, shares_group_iff (listed one) (listed two),
    GroupKey.ofField_eq_iff apart different]

end Layout

end EncoderTables.Parameters
