import Roadmap.Calendar.Checked
import Roadmap.Header.UniqueName

namespace Roadmap

open Calendar

/-- The first number from `n` on whose name does not exist. The counter is moved on before a number
is given out, so the greatest number of its type is never given out. -/
def checkedNumber (base : String) (existing : List String) (n : Nat) : Checked Nat :=
  if numbered base n ∈ existing then
    if IntType.int32.Holds (n + 1 : Nat) then checkedNumber base existing (n + 1)
    else .error .overflow
  else if IntType.int32.Holds (n + 1 : Nat) then return n
  else .error .overflow
termination_by (IntType.int32.greatest - n).toNat
decreasing_by
  next fits =>
    have upper := fits.2
    omega

def checkedName (base : String) (existing : List String) : Checked String :=
  if base ∈ existing then do return numbered base (← checkedNumber base existing 1)
  else return base

end Roadmap
