import Roadmap.Calendar.Day

namespace Roadmap.Calendar

inductive Overflow where
  | overflow
  deriving DecidableEq, Repr

abbrev Checked := Except Overflow

inductive IntType where
  | int32
  | int64
  | uint32
  deriving DecidableEq, Repr

namespace IntType

def least : IntType → Int
  | int32 => -2147483648
  | int64 => -9223372036854775808
  | uint32 => 0

def greatest : IntType → Int
  | int32 => 2147483647
  | int64 => 9223372036854775807
  | uint32 => 4294967295

def Holds (t : IntType) (n : Int) : Prop := t.least ≤ n ∧ n ≤ t.greatest

instance (t : IntType) (n : Int) : Decidable (t.Holds n) := by unfold Holds; infer_instance

end IntType

namespace Checked

def result (t : IntType) (n : Int) : Checked Int :=
  if t.Holds n then .ok n else .error .overflow

/-- The first day of the month so many months after January of a year; the months may be negative
or run past December. -/
def firstOfMonth (year months : Int) : Checked (Option Day) := do
  let before ← result .int64 (year * 12)
  let total ← result .int64 (before + months)
  if IntType.int32.Holds (total / 12) then
    let number ← result .uint32 (total % 12 + 1)
    return Day.of? (total / 12) number.toNat 1
  else return none

def addMonths (d : Day) (months : Int) : Checked (Option Day) := do
  let months ← result .int64 ((d.month.number - 1 : Nat) + months)
  match ← firstOfMonth d.year months with
  | none => return none
  | some first =>
    let days ← result .uint32 (d.number - 1)
    let shifted := first.later days.toNat
    return if shifted.Supported then some shifted else none

def daysInMonth (d : Day) : Checked Nat := do
  let next? ← firstOfMonth d.year d.month.number
  return (next?.bind Day.previous?).elim 31 Day.number

end Checked

end Roadmap.Calendar
