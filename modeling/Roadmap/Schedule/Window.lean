import Roadmap.Schedule.Phase

namespace Roadmap

open Calendar

structure Window where
  start : Day
  finish : Day
  deriving DecidableEq

namespace Window

def contains (w : Window) (d : Day) : Bool := w.start ≤ d && d ≤ w.finish

def hull? : List (Day × Day) → Option (Day × Day)
  | [] => none
  | (start, finish) :: rest =>
    let widen := fun (least, greatest) (start, finish) => (min least start, max greatest finish)
    some (rest.foldl widen (start, finish))

def back (d : Day) : Day := (d.addMonths? (-1)).getD d

def ahead (d : Day) : Day := (d.addMonths? 1).getD d

/-- The window of the phases that have both days, or around today if there are none. -/
def around (phases : List ResolvedPhase) (today : Day) : Window :=
  let (least, greatest) := (hull? (phases.filterMap ResolvedPhase.days?)).getD (today, today)
  ⟨back least, ahead greatest⟩

end Window

end Roadmap
