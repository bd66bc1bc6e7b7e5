namespace Roadmap.Decimal

def pow2 (n : Nat) : Nat := Nat.pow 2 n

def pow10 (n : Nat) : Nat := Nat.pow 10 n

@[simp] theorem pow2_zero : pow2 0 = 1 := rfl

theorem pow2_succ (n : Nat) : pow2 (n + 1) = pow2 n * 2 := rfl

theorem pow2_pos (n : Nat) : 0 < pow2 n := Nat.pow_pos (by decide)

@[simp] theorem pow10_zero : pow10 0 = 1 := rfl

theorem pow10_pos (n : Nat) : 0 < pow10 n := Nat.pow_pos (by decide)

theorem pow2_add (a b : Nat) : pow2 (a + b) = pow2 a * pow2 b := by
  induction b with
  | zero => simp
  | succ b ih => rw [← Nat.add_assoc, pow2_succ, ih, pow2_succ, Nat.mul_assoc]

theorem pow2_dvd_pow10 (n : Nat) : pow2 n ∣ pow10 n := by
  induction n with
  | zero => exact Nat.dvd_refl 1
  | succ n ih => exact Nat.mul_dvd_mul ih (by decide)

end Roadmap.Decimal
