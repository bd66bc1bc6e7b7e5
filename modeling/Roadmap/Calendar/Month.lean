namespace Roadmap.Calendar

/-- The month `count` months after January of year 0. -/
structure Month where
  count : Int
  deriving DecidableEq, Repr

namespace Month

def ofYear (year : Int) (number : Int) : Month := ⟨year * 12 + number - 1⟩

def year (m : Month) : Int := m.count / 12

def number (m : Month) : Nat := (m.count % 12).toNat + 1

def plus (m : Month) (months : Int) : Month := ⟨m.count + months⟩

def next (m : Month) : Month := m.plus 1

def isLeapYear (year : Int) : Bool := year % 4 = 0 && (year % 100 ≠ 0 || year % 400 = 0)

def length (m : Month) : Nat :=
  match m.number with
  | 2 => if isLeapYear m.year then 29 else 28
  | 4 | 6 | 9 | 11 => 30
  | _ => 31

def firstYear : Int := -262143

def lastYear : Int := 262142

def Supported (m : Month) : Prop := firstYear ≤ m.year ∧ m.year ≤ lastYear

instance (m : Month) : Decidable m.Supported := by unfold Supported; infer_instance

theorem length_pos (m : Month) : 1 ≤ m.length := by
  unfold length; split
  · split <;> decide
  all_goals decide

theorem length_ge (m : Month) : 28 ≤ m.length := by
  unfold length; split
  · split <;> decide
  all_goals decide

theorem length_le (m : Month) : m.length ≤ 31 := by
  unfold length; split
  · split <;> decide
  all_goals decide

theorem number_le (m : Month) : m.number ≤ 12 := by
  unfold number; omega

theorem year_ofYear {year number : Int} (lower : 1 ≤ number) (upper : number ≤ 12) :
    (ofYear year number).year = year := by
  simp only [ofYear, Month.year]; omega

theorem number_ofYear {year number : Int} (lower : 1 ≤ number) (upper : number ≤ 12) :
    (ofYear year number).number = number := by
  simp only [ofYear, Month.number]; omega

theorem ofYear_year_number (m : Month) : ofYear m.year m.number = m := by
  cases m
  simp only [ofYear, Month.year, Month.number, mk.injEq]; omega

end Month

end Roadmap.Calendar
