/-!
# Bits

How many bits a number needs, how many values some bits can tell apart, and the mask
that keeps the low bits of a number.
-/

namespace EncoderTables.Bits

/-- The number of values that some bits can tell apart. -/
def capacity (bits : Nat) : Nat := 1 <<< bits

/-- The greatest number that some bits can hold: all of them are set. -/
def mask (bits : Nat) : Nat := capacity bits - 1

/-- The number of binary digits of a natural number; zero has none. -/
def length (n : Nat) : Nat := if n = 0 then 0 else n.log2 + 1

/-- Each further bit doubles what can be told apart. -/
theorem capacity_succ (bits : Nat) : capacity (bits + 1) = 2 * capacity bits :=
  Nat.shiftLeft_succ 1 bits

/-- Even no bits tell one value from none. -/
theorem capacity_pos (bits : Nat) : 0 < capacity bits := by
  induction bits with
  | zero => decide
  | succ bits inductionHypothesis => rw [capacity_succ]; omega

/-- The binary digit count is the least number of bits that can hold a number. -/
theorem length_le_iff (n bits : Nat) : length n ≤ bits ↔ n < capacity bits := by
  unfold length
  split
  · next zero => simp only [zero, Nat.zero_le, true_iff]; exact capacity_pos bits
  · next positive =>
    rw [capacity, Nat.shiftLeft_eq, Nat.one_mul]
    exact Nat.succ_le_iff.trans (Nat.log2_lt positive)

end EncoderTables.Bits
