import Roadmap.Decimal.Binary

namespace Roadmap.Decimal

structure Scientific where
  digits : Nat
  exponent : Int
  deriving DecidableEq, Repr

inductive Tie where
  | up
  | even
  deriving DecidableEq, Repr

namespace Scientific

def num (d : Scientific) : Nat := d.digits * pow10 d.exponent.toNat

def den (d : Scientific) : Nat := pow10 (-d.exponent).toNat

def read (d : Scientific) : Nat := nearest d.num d.den

end Scientific

/-- The decimal on the grid of `10 ^ exponent` that reads back as pattern `n`, if there is one. -/
def onGrid (tie : Tie) (n : Nat) (exponent : Int) : Option Scientific :=
  let count := units n * pow10 (-exponent).toNat
  let step := pow2 1074 * pow10 exponent.toNat
  let lower : Scientific := ⟨count / step, exponent⟩
  let upper : Scientific := ⟨count / step + 1, exponent⟩
  if lower.read = n then
    if upper.read = n then
      -- Both neighbours read back, so the nearer one is taken.
      let twice := 2 * (count % step)
      if twice < step || (twice == step && tie == .even && lower.digits % 2 == 0) then some lower
      else some upper
    else some lower
  else if upper.read = n then some upper
  else none

def search (tie : Tie) (n : Nat) (exponent : Int) : Nat → Scientific
  -- Every magnitude lies on the last grid.
  | 0 => ⟨units n * (pow10 1074 / pow2 1074), -1074⟩
  | fuel + 1 => (onGrid tie n exponent).getD (search tie n (exponent - 1) fuel)

def topExponent (n : Nat) : Int :=
  -- The decimal logarithm of 2 is a little less than 0.30103.
  ((units n).log2 - 1073 : Int) * 30103 / 100000 + 2

def shortest (tie : Tie) (n : Nat) : Scientific :=
  if n = 0 then ⟨0, 0⟩
  else search tie n (topExponent n) (topExponent n + 1074).toNat

theorem read_of_onGrid {tie : Tie} {n : Nat} {exponent : Int} {d : Scientific}
    (found : onGrid tie n exponent = some d) : d.read = n := by
  simp only [onGrid] at found
  split at found
  · next lower =>
    split at found
    · next upper =>
      split at found
      · cases found; exact lower
      · cases found; exact upper
    · cases found; exact lower
  · split at found
    · next upper => cases found; exact upper
    · cases found

theorem read_search {tie : Tie} {n : Nat} (finite : n ≤ infinite) (exponent : Int) (fuel : Nat) :
    (search tie n exponent fuel).read = n := by
  induction fuel generalizing exponent with
  | zero =>
    have exact_grid : (search tie n exponent 0).read =
        nearest (units n * (pow10 1074 / pow2 1074)) (pow10 1074) := by
      simp [search, Scientific.read, Scientific.num, Scientific.den]
    rw [exact_grid]
    exact nearest_units finite (pow2_dvd_pow10 1074) (pow10_pos 1074)
  | succ fuel ih =>
    simp only [search]
    cases found : onGrid tie n exponent with
    | none => exact ih (exponent - 1)
    | some d => exact read_of_onGrid found

theorem read_shortest (tie : Tie) {n : Nat} (finite : n ≤ infinite) :
    (shortest tie n).read = n := by
  unfold shortest
  split
  · next zero => subst zero; decide +kernel
  · exact read_search finite _ _

example : shortest .up (pattern 0.1) = ⟨1, -1⟩ := by decide +kernel

example : shortest .even 1 = ⟨5, -324⟩ := by decide +kernel

example : shortest .up (pattern 2.98023223876953125e-8) = ⟨29802322387695313, -24⟩ := by
  decide +kernel

end Roadmap.Decimal
