import EncoderTables.Parameters.Layout
import Mathlib.Data.List.Sort
import Mathlib.Data.String.Basic

/-!
# The order of fields

Fields are sorted by width and name. Distinct names leave no two fields in the same place
of this order, so every way of sorting them gives the same list; sorting by insertion is
the one that follows the list.
-/

namespace EncoderTables.Parameters

namespace Slot

/-- A field precedes another by width, then by name. -/
theorem precedes_iff (first second : Slot) :
    first.precedes second = true ↔
      first.width < second.width ∨ first.width = second.width ∧ first.name ≤ second.name := by
  simp [precedes]

/-- The order of fields is transitive. -/
theorem precedes_trans (first second third : Slot) (one : first.precedes second = true)
    (two : second.precedes third = true) : first.precedes third = true := by
  rw [precedes_iff] at *
  rcases one with narrower | ⟨same, before⟩
  · rcases two with later | ⟨width, -⟩ <;> omega
  · rcases two with later | ⟨width, after⟩
    · omega
    · exact Or.inr ⟨same.trans width, before.trans after⟩

/-- Of two fields one precedes the other. -/
theorem precedes_total (first second : Slot) :
    (first.precedes second || second.precedes first) = true := by
  rw [Bool.or_eq_true, precedes_iff, precedes_iff]
  rcases Nat.lt_trichotomy first.width second.width with narrower | same | wider
  · exact Or.inl (Or.inl narrower)
  · rcases le_total first.name second.name with before | after
    · exact Or.inl (Or.inr ⟨same, before⟩)
    · exact Or.inr (Or.inr ⟨same.symm, after⟩)
  · exact Or.inr (Or.inl wider)

/-- Fields that precede each other have the same name. -/
theorem name_eq_of_precedes {first second : Slot} (one : first.precedes second = true)
    (two : second.precedes first = true) : first.name = second.name := by
  rw [precedes_iff] at *
  rcases one with narrower | ⟨same, before⟩
  · rcases two with later | ⟨width, -⟩ <;> omega
  · rcases two with later | ⟨width, after⟩
    · omega
    · exact le_antisymm before after

end Slot

/-- Fields of distinct names are sorted in one way. -/
theorem Layout.eq_ordered {fields sorted : List Slot} (distinct : (fields.map (·.name)).Nodup)
    (arranged : sorted.Perm fields)
    (inOrder : sorted.Pairwise fun first second => first.precedes second = true) :
    sorted = Layout.ordered fields := by
  have merged := List.mergeSort_perm fields Slot.precedes
  refine List.Perm.eq_of_pairwise ?_ inOrder
    (List.pairwise_mergeSort Slot.precedes_trans Slot.precedes_total fields)
    (arranged.trans merged.symm)
  intro first second member other one two
  exact List.inj_on_of_nodup_map distinct (arranged.mem_iff.mp member)
    (merged.mem_iff.mp other) (Slot.name_eq_of_precedes one two)

/-- Fields of distinct names are ordered by inserting them one after the other. -/
theorem Layout.ordered_eq_insertionSort {fields : List Slot}
    (distinct : (fields.map (·.name)).Nodup) :
    Layout.ordered fields =
      fields.insertionSort (fun first second => first.precedes second = true) := by
  have transitive : IsTrans Slot (fun first second => first.precedes second = true) :=
    ⟨Slot.precedes_trans⟩
  have total : Std.Total (fun first second : Slot => first.precedes second = true) :=
    ⟨fun first second => by simpa using Slot.precedes_total first second⟩
  exact (Layout.eq_ordered distinct (List.perm_insertionSort _ fields)
    (List.pairwise_insertionSort _ fields)).symm

end EncoderTables.Parameters
