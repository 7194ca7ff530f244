import EncoderTables.Sharing.Permutation
import Mathlib.Algebra.BigOperators.Group.List.Basic
import Mathlib.Algebra.Group.Action.Defs
import Mathlib.Data.Nat.Factorial.Basic

/-!
# Orders

There are as many orders of some items as the factorial of their number says, and the
table of orders lists each of them.
-/

namespace EncoderTables.Permutation

/-- The orders of some items are counted by the factorial. -/
theorem count_eq_factorial (items : Nat) : count items = items.factorial := by
  induction items with
  | zero => rfl
  | succ items inductionHypothesis => rw [count, inductionHypothesis, Nat.factorial_succ]

/-- All items can be arranged in as many ways as there are orders. -/
theorem length_arrange (count : Nat) {items : List Nat} (all : items.length = count) :
    (arrange count items).length = count.factorial := by
  induction count generalizing items with
  | zero => rfl
  | succ count inductionHypothesis =>
    have each : ∀ first ∈ items,
        ((arrange count (items.erase first)).map (first :: ·)).length = count.factorial := by
      intro first member
      have fewer : (items.erase first).length = count := by
        rw [List.length_erase_of_mem member, all, Nat.add_sub_cancel]
      rw [List.length_map, inductionHypothesis fewer]
    rw [arrange, List.length_flatMap, List.map_congr_left each, List.map_const', List.sum_replicate,
      all, smul_eq_mul, Nat.factorial_succ]

/-- The table of orders has a row for each order. -/
theorem length_orders (items : Nat) : (orders items).length = items.factorial :=
  length_arrange items List.length_range

end EncoderTables.Permutation
