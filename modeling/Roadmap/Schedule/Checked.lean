import Roadmap.Calendar.Checked
import Roadmap.Schedule.Axis

namespace Roadmap.Window

open Calendar Calendar.Checked

def checkedIndex (w : Window) (d : Day) : Checked Int := do
  let years ← result .int32 (d.year - w.start.year)
  let whole ← result .int32 (years * 12)
  let part ← result .int32 ((d.month.number - 1 : Nat) - (w.start.month.number - 1 : Nat))
  result .int32 (whole + part)

def checkedSlot (w : Window) (before : Option Int) (index : Int) : Checked MonthSlot := do
  let january ← result .int32 (w.start.year * 12)
  let first ← result .int32 (january + (w.start.month.number - 1 : Nat))
  let total ← result .int32 (first + index)
  let year := total / 12
  let month ← result .uint32 (total % 12 + 1)
  let label := monthLabel (.ofYear year month)
  let isFirst : Bool := before ≠ some year
  return { year
           month := month.toNat
           label
           shortLabel := if isFirst then label else String.ofList (padded 2 month.toNat)
           isFirstOfYear := isFirst
           isEvenYear := year % 2 = 0 }

def checkedSlotsFrom (w : Window) (before : Option Int) (index : Int) :
    Nat → Checked (List MonthSlot)
  | 0 => return []
  | left + 1 => do
    let slot ← w.checkedSlot before index
    return slot :: (← w.checkedSlotsFrom (some slot.year) (index + 1) left)

def checkedSlots (w : Window) : Checked (List MonthSlot) := do
  let last ← w.checkedIndex w.finish
  let count ← result .int32 (last + 1)
  w.checkedSlotsFrom none 0 count.toNat

end Roadmap.Window
