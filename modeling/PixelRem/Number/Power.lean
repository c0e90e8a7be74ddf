/-!
# Powers

The powers of the two bases that numbers are written in.
-/

namespace PixelRem

/-- A power of ten. -/
def pow10 (n : Nat) : Nat :=
  Nat.pow 10 n

/-- A power of two. -/
def pow2 (n : Nat) : Nat :=
  Nat.pow 2 n

@[simp] theorem pow10_zero : pow10 0 = 1 := rfl

@[simp] theorem pow10_succ (n : Nat) : pow10 (n + 1) = pow10 n * 10 := rfl

@[simp] theorem pow2_zero : pow2 0 = 1 := rfl

@[simp] theorem pow2_succ (n : Nat) : pow2 (n + 1) = pow2 n * 2 := rfl

theorem pow10_pos (n : Nat) : 0 < pow10 n := by
  induction n with
  | zero => decide
  | succ n ih => rw [pow10_succ]; omega

theorem pow2_pos (n : Nat) : 0 < pow2 n := by
  induction n with
  | zero => decide
  | succ n ih => rw [pow2_succ]; omega

theorem pow2_add (a b : Nat) : pow2 (a + b) = pow2 a * pow2 b :=
  Nat.pow_add 2 a b

theorem pow2_le_pow2 {a b : Nat} (h : a ≤ b) : pow2 a ≤ pow2 b :=
  Nat.pow_le_pow_right (by decide) h

end PixelRem
