import Roadmap.Schedule.Window

namespace Roadmap

open Calendar

structure MonthSlot where
  year : Int
  month : Nat
  label : String
  shortLabel : String
  isFirstOfYear : Bool
  isEvenYear : Bool
  deriving DecidableEq

def monthLabel (m : Month) : String :=
  let year := if m.year < 0 then '-' :: padded 3 m.year.natAbs else padded 4 m.year.toNat
  String.ofList (year ++ '-' :: padded 2 m.number)

namespace Window

def monthIndex (w : Window) (d : Day) : Int := d.month.count - w.start.month.count

def monthCount (w : Window) : Nat := (w.monthIndex w.finish + 1).toNat

def monthAt (w : Window) (index : Nat) : Month := w.start.month.plus index

def months (w : Window) : List Month := (List.range w.monthCount).map w.monthAt

def slotAt (w : Window) (index : Nat) : MonthSlot :=
  let m := w.monthAt index
  let isFirst := index = 0 || (w.monthAt (index - 1)).year ≠ m.year
  { year := m.year
    month := m.number
    label := monthLabel m
    shortLabel := if isFirst then monthLabel m else String.ofList (padded 2 m.number)
    isFirstOfYear := isFirst
    isEvenYear := m.year % 2 = 0 }

def slots (w : Window) : List MonthSlot := (List.range w.monthCount).map w.slotAt

end Window

/-- Numbers in which lengths on the axis are measured. -/
class Measure (α : Type) extends Add α, Sub α, Div α, Max α where
  ofInt : Int → α

instance : Measure Float where
  ofInt := Float.ofInt

namespace Window

variable {α : Type} [Measure α]

/-- A month token lies where its month starts, a day in its month in proportion. -/
def offset? (w : Window) (t : DateToken) : Option α :=
  (t.day? .start).map fun day =>
    let month := Measure.ofInt (w.monthIndex day)
    if t.isMonth then month
    else month + Measure.ofInt (day.number - 1 : Nat) / Measure.ofInt day.daysInMonth

/-- The length of a bar from the start of one token to the close of another's last day; no bar
is shorter than half a month. -/
def span? (w : Window) (start finish : DateToken) : Option α := do
  let first ← w.offset? start
  let last ← w.offset? (finish.normalize .finish)
  let day ← (finish.normalize .finish).day? .start
  let oneDay := Measure.ofInt 1 / Measure.ofInt day.daysInMonth
  return max (last - first + oneDay) (Measure.ofInt 1 / Measure.ofInt 2)

end Window

end Roadmap
