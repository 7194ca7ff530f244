import EncoderTables.Proofs.Sharing.Orders
import Mathlib.Data.List.Induction
import Mathlib.Data.List.Nodup
import Mathlib.Data.List.Perm.Basic

/-!
# Tables of orders

The table for a number of items lists every order of them once, sorted by the first place in
which two of them differ. This is what makes the number of an order mean one order: a selected
row is a rearrangement, no two rows are the same, and none is missing. Tables are remembered in
the order of their first requests.
-/

namespace EncoderTables.Permutation

/-- The tables that have been needed: each once, in the order in which they were first asked
for. -/
structure Needed (sizes requests : List Nat) : Prop where
  listed : ∀ size, size ∈ sizes ↔ size ∈ requests
  once : sizes.Nodup
  inOrder : sizes.Pairwise fun first second => requests.idxOf first < requests.idxOf second

/-- A further request leaves the tables as they are, or adds one behind them. -/
theorem Needed.need {sizes requests : List Nat} (needed : Needed sizes requests) (size : Nat) :
    Needed (Permutation.need sizes size) (requests ++ [size]) := by
  have former : sizes.Pairwise fun first second =>
      (requests ++ [size]).idxOf first < (requests ++ [size]).idxOf second := by
    refine needed.inOrder.imp_of_mem fun one two before => ?_
    rwa [List.idxOf_append_of_mem ((needed.listed _).mp one),
      List.idxOf_append_of_mem ((needed.listed _).mp two)]
  unfold Permutation.need
  split
  · next known =>
    have asked : size ∈ requests := (needed.listed size).mp (List.contains_iff_mem.mp known)
    refine ⟨fun other => ?_, needed.once, former⟩
    rw [needed.listed, List.mem_append, List.mem_singleton]
    exact ⟨.inl, fun either => either.elim id (· ▸ asked)⟩
  · next new =>
    rw [List.contains_iff_mem] at new
    have fresh : size ∉ requests := mt (needed.listed size).mpr new
    refine ⟨fun other => ?_, ?_, ?_⟩
    · simp only [List.mem_append, needed.listed, List.mem_singleton]
    · refine List.nodup_append.mpr ⟨needed.once, List.nodup_singleton size, ?_⟩
      rintro other member _ last rfl
      exact new (List.mem_singleton.mp last ▸ member)
    · refine List.pairwise_append.mpr ⟨former, List.pairwise_singleton .., ?_⟩
      intro first member second last
      obtain rfl := List.mem_singleton.mp last
      have asked := (needed.listed first).mp member
      rw [List.idxOf_append_of_mem asked, List.idxOf_append_of_notMem fresh]
      have inside := List.idxOf_lt_length_of_mem asked
      omega

end EncoderTables.Permutation
