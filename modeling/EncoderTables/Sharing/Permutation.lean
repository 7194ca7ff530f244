/-!
# Permutation tables

The table for `n` items lists all orders of the numbers below `n`, in lexicographic
order. The number of an order is its position in the table. Tables are remembered in
the order in which they were first needed.
-/

namespace EncoderTables.Permutation

/-- The orders of a number of distinct items out of a list, the first item varying
slowest. -/
def arrange : (count : Nat) → List Nat → List (List Nat)
  | 0, _ => [[]]
  | count + 1, items =>
    items.flatMap fun first => (arrange count (items.erase first)).map (first :: ·)

/-- All orders of the numbers below `n`. -/
def orders (n : Nat) : List (List Nat) := arrange n (List.range n)

/-- The number of orders of `n` items. -/
def count : Nat → Nat
  | 0 => 1
  | n + 1 => (n + 1) * count n

/-- Remember that the table for `n` items is needed. -/
def need {α : Type} [BEq α] (sizes : List α) (n : α) : List α :=
  if sizes.contains n then sizes else sizes ++ [n]

end EncoderTables.Permutation
