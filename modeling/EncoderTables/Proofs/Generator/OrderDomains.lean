import EncoderTables.Proofs.Domain.Values
import EncoderTables.Proofs.Generator.LaterPhases
import EncoderTables.Proofs.Generator.ParameterTables
import EncoderTables.Proofs.Sharing.Orders

/-!
# Domains of orders

A parameter that selects the order of unordered writes indexes the table of all their
orders. Its domain is the one that the last of the groups imposes whose order it selects.
The domain stays inside the table of a group as long as no smaller group comes before a
greater one that the same parameter orders.
-/

namespace EncoderTables

namespace Node

mutual

/-- The order of each group is read. -/
theorem mem_reads_of_groups : (node : Node) → ∀ chosen ∈ groups node, chosen.1 ∈ reads node
  | .branch condition taken otherwise, chosen, member => by
    rw [groups, List.mem_append] at member
    rw [reads, List.mem_append, List.mem_append]
    rcases member with member | member
    · exact Or.inl (Or.inr (mem_readsAll_of_groupsAll taken chosen member))
    · exact Or.inr (mem_readsAll_of_groupsAll otherwise chosen member)
  | .unordered writes order, chosen, member => by
    rw [reads, List.mem_append]
    by_cases single : writes.length = 1
    · rw [groups, if_pos single] at member
      exact Or.inl (mem_readsAll_of_groupsAll writes chosen member)
    · rw [groups, if_neg single, List.mem_singleton] at member
      simp [member, single]
  | .bare _, _, member | .group _, _, member | .literal _, _, member
  | .literalList _, _, member | .param _, _, member | .isSet _, _, member
  | .unary .., _, member | .binary .., _, member | .write .., _, member
  | .packed .., _, member | .abort _, _, member | .routine .., _, member
  | .call _, _, member => by simp [groups] at member

/-- The orders of the groups of several actions are read. -/
theorem mem_readsAll_of_groupsAll : (nodes : List Node) →
    ∀ chosen ∈ groupsAll nodes, chosen.1 ∈ readsAll nodes
  | [], _, member => by simp [groupsAll] at member
  | node :: rest, chosen, member => by
    rw [groupsAll, List.mem_append] at member
    rw [readsAll, List.mem_append]
    exact member.imp (mem_reads_of_groups node chosen) (mem_readsAll_of_groupsAll rest chosen)

end

end Node

namespace Generator

/-- A key that is given a value has it, and the others keep theirs. -/
theorem lookup_setEntry {α : Type} (name key : String) (value : α)
    (entries : List (String × α)) :
    (Emitter.setEntry name value entries).lookup key =
      if key = name then some value else entries.lookup key := by
  induction entries with
  | nil => rw [Emitter.setEntry, lookup_cons_ite]
  | cons entry rest inductionHypothesis =>
    obtain ⟨first, old⟩ := entry
    rw [Emitter.setEntry]
    split
    · next same =>
      subst same
      simp only [lookup_cons_ite]
      split <;> rfl
    · next different =>
      simp only [lookup_cons_ite, inductionHypothesis]
      grind

/-- Of several entries of a key the last one is found. -/
theorem lookup_ofEntries {α : Type} (key : String) (entries : List (String × α)) :
    (Emitter.ofEntries entries).lookup key = entries.reverse.lookup key := by
  induction entries using List.reverseRecOn with
  | nil => rfl
  | append_singleton entries last inductionHypothesis =>
    obtain ⟨name, value⟩ := last
    have step : Emitter.ofEntries (entries ++ [(name, value)]) =
        Emitter.setEntry name value (Emitter.ofEntries entries) := by
      simp [Emitter.ofEntries]
    rw [step, lookup_setEntry, inductionHypothesis, List.reverse_append, List.reverse_singleton,
      List.singleton_append, lookup_cons_ite]

/-- The number of writes in the last group whose order a parameter selects. -/
def lastItems (order : String) (groups : List (String × Nat)) : Option Nat :=
  groups.reverse.lookup order

/-- Values that are changed are found with the change. -/
theorem lookup_map {α β : Type} (change : α → β) (key : String) (entries : List (String × α)) :
    (entries.map fun entry => (entry.1, change entry.2)).lookup key =
      (entries.lookup key).map change := by
  induction entries with
  | nil => rfl
  | cons entry rest inductionHypothesis =>
    obtain ⟨first, value⟩ := entry
    rw [List.map_cons, lookup_cons_ite, lookup_cons_ite, inductionHypothesis]
    split <;> rfl

/-- A parameter has the domain that the last of its groups imposes. -/
theorem lookup_imposedBy (order : String) (groups : List (String × Nat)) :
    (imposedBy groups).lookup order = (lastItems order groups).map Effect.orders := by
  rw [imposedBy, lookup_ofEntries, ← List.map_reverse, lookup_map, lastItems]

/-- Each group has a last one with the same parameter. -/
theorem lastItems_of_mem {order : String} {items : Nat} {groups : List (String × Nat)}
    (member : (order, items) ∈ groups) : ∃ last, lastItems order groups = some last := by
  rw [← Option.isSome_iff_exists, ← Option.ne_none_iff_isSome]
  intro absent
  have all := List.lookup_eq_none_iff.mp absent (order, items) (List.mem_reverse.mpr member)
  simp at all

/-- The last group of a parameter is one of its groups. -/
theorem mem_of_lastItems {order : String} {last : Nat} {groups : List (String × Nat)}
    (found : lastItems order groups = some last) : (order, last) ∈ groups := by
  obtain ⟨former, later, split, -⟩ := List.lookup_eq_some_iff.mp found
  rw [← List.mem_reverse, split]
  exact List.mem_append_right former List.mem_cons_self

/-- The orders of one number of items are all orders of another number exactly when there
are no more items. -/
theorem orders_within_iff {last items : Nat} (several : 2 ≤ items) :
    (∀ value, (Effect.orders last).Admits value → 0 ≤ value ∧ value < (items.factorial : Int)) ↔
      last ≤ items := by
  have orders : Effect.orders last = .interval 0 (last.factorial - 1 : Nat) := by
    rw [Effect.orders, Permutation.count_eq_factorial]
  have positive := Nat.factorial_pos last
  simp only [orders, Domain.Admits]
  constructor
  · intro within
    by_contra greater
    have more : items.factorial < last.factorial :=
      (Nat.factorial_lt (by omega)).mpr (Nat.lt_of_not_le greater)
    have greatest := (within (last.factorial - 1 : Nat) ⟨by omega, le_refl _⟩).2
    omega
  · rintro fewer value ⟨least, greatest⟩
    have bound := Nat.factorial_le fewer
    omega

/-- The table of an instruction lists the parameter that selects the order of a group with
all orders of the last group that it selects the order of. These are rows of the table of
orders that the group's function indexes exactly when the last group is not the greater
one. -/
theorem order_domain_within_iff {set : InstructionSet} {settings : Settings} {final : Session}
    (ran : generate (.start set settings) = .ok () final) {entry : Instruction × Emitter}
    (member : entry ∈ final.encoded) {order : String} {items : Nat}
    (group : (order, items) ∈ Node.groupsAll entry.1.encoding) (several : 2 ≤ items) :
    (Permutation.orders items).length = items.factorial ∧
      (∃ tables, final.elements.lookup .parameters = some tables ∧
        tableElement entry ∈ tables) ∧
      ∃ last, lastItems order (Node.groupsAll entry.1.encoding) = some last ∧
        (∀ domain, (order, domain) ∈ tableRows entry ↔
          domain = .interval 0 (last.factorial - 1 : Nat)) ∧
        ((∀ domain, (order, domain) ∈ tableRows entry → ∀ value, domain.Admits value →
            0 ≤ value ∧ value < (items.factorial : Int)) ↔ last ≤ items) := by
  obtain ⟨-, named, -, imposed, -⟩ := (generate_encodes ran).1.entry member
  obtain ⟨last, found⟩ := lastItems_of_mem group
  have read : order ∈ entry.2.parameters :=
    (named order).mpr (Node.mem_readsAll_of_groupsAll entry.1.encoding _ group)
  have domain : rowDomain entry.1 entry.2.domains order = .ok (Effect.orders last) := by
    simp [rowDomain, imposed, lookup_imposedBy, found]
  have row : ∀ domain, (order, domain) ∈ tableRows entry ↔ domain = Effect.orders last := by
    intro other
    rw [tableRows, mem_domainRows, domain]
    simp [read, eq_comm]
  have interval : Effect.orders last = .interval 0 (last.factorial - 1 : Nat) := by
    rw [Effect.orders, Permutation.count_eq_factorial]
  refine ⟨Permutation.length_orders items, generate_table ran member (List.ne_nil_of_mem read),
    last, found, interval ▸ row, ?_⟩
  rw [← orders_within_iff several]
  simp only [row, forall_eq]

/-- An instruction with two groups of unordered writes, the second of which is greater. -/
def twoGroups : Instruction :=
  ⟨"two_groups", "two_groups", "", [],
    [.unordered [.write (.literal (.number 1)) 8, .write (.literal (.number 2)) 8]
      (.text Node.defaultOrder),
     .unordered [.write (.literal (.number 1)) 8, .write (.literal (.number 2)) 8,
       .write (.literal (.number 3)) 8] (.text Node.defaultOrder)], [], [], [], [], some 0⟩

/-- The domain of the order reaches behind the two rows that the first group indexes. -/
theorem order_domain_of_twoGroups :
    ∃ final, generate (.start ⟨[twoGroups]⟩ .default) = .ok () final ∧
    ∃ entry ∈ final.encoded, entry.1 = twoGroups ∧
      (Node.defaultOrder, 2) ∈ Node.groupsAll entry.1.encoding ∧
      ¬ ∀ domain, (Node.defaultOrder, domain) ∈ tableRows entry → ∀ value, domain.Admits value →
        0 ≤ value ∧ value < ((2 : Nat).factorial : Int) := by
  obtain ⟨final, ran⟩ := @generate_succeeds ⟨[twoGroups]⟩ (by decide +kernel)
  have listed := (generate_encodes ran).1.map_fst_encoded
  obtain ⟨entry, member, same⟩ : ∃ entry ∈ final.encoded, entry.1 = twoGroups :=
    List.mem_map.mp (listed ▸ List.mem_singleton_self twoGroups)
  have group : (Node.defaultOrder, 2) ∈ Node.groupsAll entry.1.encoding := by
    rw [same]
    decide
  obtain ⟨-, -, last, found, -, within⟩ := order_domain_within_iff ran member group (le_refl 2)
  refine ⟨final, ran, entry, member, same, group, ?_⟩
  rw [within]
  rw [same] at found
  have three : last = 3 := by
    have computed : lastItems Node.defaultOrder (Node.groupsAll twoGroups.encoding) = some 3 := by
      decide
    exact Option.some.inj (found.symm.trans computed)
  omega

end Generator

end EncoderTables
