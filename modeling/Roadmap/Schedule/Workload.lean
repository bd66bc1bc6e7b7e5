import Roadmap.Schedule.Axis
import Roadmap.Schedule.Basic

namespace Roadmap

open Calendar

inductive LoadLevel where
  | idle
  | light
  | healthy
  | overloaded
  deriving DecidableEq, Repr

def LoadLevel.ofLoad (load : Float) : LoadLevel :=
  if 1.1 < load then .overloaded
  else if 0.5 ≤ load then .healthy
  else if 0 < load then .light
  else .idle

structure PersonLoad where
  person : String
  monthly : List Float

namespace PersonLoad

/-- The greatest monthly load, at least zero; what is not a number does not count. -/
def peak (p : PersonLoad) : Float :=
  p.monthly.foldl (fun greatest load => if greatest < load then load else greatest) 0

def level (p : PersonLoad) (index : Nat) : LoadLevel := .ofLoad (p.monthly[index]?.getD 0)

end PersonLoad

structure Workload where
  months : List MonthSlot
  persons : List PersonLoad

def MonthSlot.bounds? (slot : MonthSlot) : Option (Day × Day) := do
  let first ← Day.of? slot.year slot.month 1
  let last ← Day.of? slot.year slot.month first.daysInMonth
  return (first, last)

def datedPortions (rows : List PersonRow) : List ((Day × Day) × Float) :=
  rows.filterMap fun row => row.days?.map (·, row.portion)

/-- A portion counts in full, be it for a single day. -/
def loadWithin (first last : Day) (portions : List ((Day × Day) × Float)) : Float :=
  totalOf ((portions.filter fun ((start, finish), _) =>
    start ≤ last && first ≤ finish).map Prod.snd)

namespace Workload

def ofSchedule (s : Schedule) : Workload :=
  let slots := s.window.slots
  let bounds := slots.filterMap MonthSlot.bounds?
  { months := slots
    persons := s.persons.map fun person =>
      let portions := datedPortions (s.rowsOf person)
      ⟨person, bounds.map fun (first, last) => loadWithin first last portions⟩ }

def person? (w : Workload) (name : String) : Option PersonLoad :=
  w.persons.find? (·.person = name)

def overloaded (w : Workload) : List (String × MonthSlot × Float) :=
  w.persons.flatMap fun p =>
    ((p.monthly.zip w.months).filter fun (load, _) => LoadLevel.ofLoad load = .overloaded).map
      fun (load, slot) => (p.person, slot, load)

end Workload

end Roadmap
