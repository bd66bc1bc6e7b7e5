import Roadmap.Decimal.Power

namespace Roadmap.Decimal

/-- The pattern of infinity; larger patterns are not numbers. -/
def infinite : Nat := 2047 * pow2 52

/-- The magnitude with pattern `n`, counted in units of `2 ^ -1074`. -/
def units (n : Nat) : Nat :=
  if n < pow2 52 then n else (n % pow2 52 + pow2 52) * pow2 (n / pow2 52 - 1)

def patternBelow (count : Nat) : Nat :=
  (count.log2 - 52) * pow2 52 + count / pow2 (count.log2 - 52)

/-- The pattern nearest to `num / den`; halfway the even one, and infinity beyond the largest. -/
def nearest (num den : Nat) : Nat :=
  let below := patternBelow (num * pow2 1074 / den)
  let halfway := (units below + units (below + 1)) * den
  let rounded :=
    if num * pow2 1075 < halfway then below
    else if halfway < num * pow2 1075 then below + 1
    else if below % 2 = 0 then below else below + 1
  min rounded infinite

def pattern (x : Float) : Nat := x.toBits.toNat % pow2 63

def isNegative (x : Float) : Bool := pow2 63 ≤ x.toBits.toNat

def isNumber (x : Float) : Bool := pattern x ≤ infinite

def isFinite (x : Float) : Bool := pattern x < infinite

def assemble (negative : Bool) (n : Nat) : Float :=
  Float.ofBits (UInt64.ofNat (if negative then pow2 63 + n else n))

theorem pattern_cases (n : Nat) :
    n < pow2 52 ∨ ∃ power fraction, fraction < pow2 52 ∧ n = (power + 1) * pow2 52 + fraction := by
  by_cases small : n < pow2 52
  · exact .inl small
  · refine .inr ⟨n / pow2 52 - 1, n % pow2 52, Nat.mod_lt _ (pow2_pos 52), ?_⟩
    have whole : 1 ≤ n / pow2 52 := (Nat.le_div_iff_mul_le (pow2_pos 52)).2 (by omega)
    rw [Nat.sub_add_cancel whole]
    exact (Nat.div_add_mod' n (pow2 52)).symm

theorem units_of_lt {n : Nat} (small : n < pow2 52) : units n = n := if_pos small

theorem units_eq_mul {power fraction : Nat} (small : fraction < pow2 52) :
    units ((power + 1) * pow2 52 + fraction) = (pow2 52 + fraction) * pow2 power := by
  have positive := pow2_pos 52
  have large : ¬ (power + 1) * pow2 52 + fraction < pow2 52 := by
    have : pow2 52 ≤ (power + 1) * pow2 52 := Nat.le_mul_of_pos_left _ (Nat.succ_pos power)
    omega
  have quotient : ((power + 1) * pow2 52 + fraction) / pow2 52 = power + 1 := by
    rw [Nat.add_comm, Nat.add_mul_div_right _ _ positive, Nat.div_eq_of_lt small, Nat.zero_add]
  have remainder : ((power + 1) * pow2 52 + fraction) % pow2 52 = fraction := by
    rw [Nat.add_comm, Nat.add_mul_mod_self_right, Nat.mod_eq_of_lt small]
  rw [units, if_neg large, quotient, remainder, Nat.add_comm fraction]
  rfl

theorem units_lt_succ (n : Nat) : units n < units (n + 1) := by
  rcases pattern_cases n with small | ⟨power, fraction, small, rfl⟩
  · rw [units_of_lt small]
    by_cases last : n + 1 < pow2 52
    · rw [units_of_lt last]; omega
    · have same : n + 1 = (0 + 1) * pow2 52 + 0 := by omega
      rw [same, units_eq_mul (pow2_pos 52), pow2_zero]; omega
  · rw [units_eq_mul small]
    have positive := pow2_pos power
    by_cases last : fraction + 1 < pow2 52
    · rw [Nat.add_assoc, units_eq_mul last]
      exact Nat.mul_lt_mul_of_pos_right (by omega) positive
    · have same : (power + 1) * pow2 52 + fraction + 1 = (power + 1 + 1) * pow2 52 + 0 := by
        have full : fraction + 1 = pow2 52 := by omega
        rw [Nat.add_assoc, full, Nat.add_mul (power + 1), Nat.one_mul]
        exact (Nat.add_zero _).symm
      have double : (pow2 52 + 0) * pow2 (power + 1) = 2 * pow2 52 * pow2 power := by
        rw [pow2_succ power, Nat.add_zero (pow2 52), Nat.mul_comm (pow2 power) 2,
          ← Nat.mul_assoc (pow2 52), Nat.mul_comm (pow2 52) 2]
      rw [same, units_eq_mul (pow2_pos 52), double]
      exact Nat.mul_lt_mul_of_pos_right (by omega) positive

theorem log2_eq {value power : Nat} (lower : pow2 power ≤ value)
    (upper : value < pow2 (power + 1)) :
    value.log2 = power := by
  have nonzero : value ≠ 0 := by have := pow2_pos power; omega
  have above : power ≤ value.log2 := (Nat.le_log2 nonzero).2 lower
  have below : value.log2 < power + 1 := (Nat.log2_lt nonzero).2 upper
  omega

theorem patternBelow_units (n : Nat) : patternBelow (units n) = n := by
  rcases pattern_cases n with small | ⟨power, fraction, small, rfl⟩
  · have low : n.log2 - 52 = 0 := by
      by_cases zero : n = 0
      · subst zero; rfl
      · have : n.log2 < 52 := (Nat.log2_lt zero).2 small
        omega
    rw [units_of_lt small, patternBelow, low]; simp
  · have log : ((pow2 52 + fraction) * pow2 power).log2 = 52 + power := by
      apply log2_eq
      · rw [pow2_add]; exact Nat.mul_le_mul_right _ (by omega)
      · rw [Nat.add_right_comm, pow2_add, pow2_succ 52]
        exact Nat.mul_lt_mul_of_pos_right (by omega) (pow2_pos power)
    rw [units_eq_mul small, patternBelow, log, Nat.add_sub_cancel_left,
      Nat.mul_div_cancel _ (pow2_pos power), Nat.add_mul, Nat.one_mul, Nat.add_assoc]

theorem nearest_units {n den : Nat} (finite : n ≤ infinite) (whole : pow2 1074 ∣ den)
    (positive : 0 < den) : nearest (units n * (den / pow2 1074)) den = n := by
  have unit : den / pow2 1074 * pow2 1074 = den := Nat.div_mul_cancel whole
  have count : units n * (den / pow2 1074) * pow2 1074 / den = units n := by
    rw [Nat.mul_assoc, unit, Nat.mul_div_cancel _ positive]
  have twice : units n * (den / pow2 1074) * pow2 1075 = (units n + units n) * den := by
    rw [pow2_succ 1074, ← Nat.mul_assoc, Nat.mul_assoc (units n), unit, Nat.add_mul, Nat.mul_two]
  have less : (units n + units n) * den < (units n + units (n + 1)) * den :=
    Nat.mul_lt_mul_of_pos_right (Nat.add_lt_add_left (units_lt_succ n) _) positive
  simp only [nearest, count, patternBelow_units, twice, less, if_true]
  omega

example : units 1 = 1 ∧ units (pow2 52) = pow2 52 ∧ units (2 * pow2 52) = pow2 53 := by
  decide +kernel

example : nearest 1 10 = pattern 0.1 := by decide +kernel

example : nearest (pow2 1024) 1 = infinite := by decide +kernel

end Roadmap.Decimal
