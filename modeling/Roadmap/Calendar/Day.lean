import Roadmap.Calendar.Month

namespace Roadmap.Calendar

structure Day where
  month : Month
  number : Nat
  number_pos : 1 ≤ number
  number_le : number ≤ month.length
  deriving DecidableEq, Repr

def Month.first (m : Month) : Day := ⟨m, 1, by decide, m.length_pos⟩

def Month.last (m : Month) : Day := ⟨m, m.length, m.length_pos, Nat.le_refl _⟩

def Month.first? (m : Month) : Option Day :=
  if m.Supported then some m.first else none

namespace Day

def year (d : Day) : Int := d.month.year

def of? (year : Int) (month number : Nat) : Option Day :=
  let m := Month.ofYear year month
  if exist : m.Supported ∧ 1 ≤ month ∧ month ≤ 12 ∧ 1 ≤ number ∧ number ≤ m.length then
    some ⟨m, number, exist.2.2.2.1, exist.2.2.2.2⟩
  else none

def next (d : Day) : Day :=
  if h : d.number + 1 ≤ d.month.length then ⟨d.month, d.number + 1, by omega, h⟩
  else d.month.next.first

def later (d : Day) : Nat → Day
  | 0 => d
  | count + 1 => (d.later count).next

def Supported (d : Day) : Prop := d.month.Supported

instance (d : Day) : Decidable d.Supported := by unfold Supported; infer_instance

def next? (d : Day) : Option Day :=
  if d.next.Supported then some d.next else none

def previous (d : Day) : Day :=
  if h : 2 ≤ d.number then ⟨d.month, d.number - 1, by omega, by have := d.number_le; omega⟩
  else (d.month.plus (-1)).last

def previous? (d : Day) : Option Day :=
  if d.previous.Supported then some d.previous else none

/-- Shifts a day by whole months. The target month is taken first and the days up to `d` are then
counted off from its start, so that days past its end run over into the next month. -/
def addMonths? (d : Day) (months : Int) : Option Day :=
  let target := d.month.plus months
  let shifted := target.first.later (d.number - 1)
  if target.Supported ∧ shifted.Supported then some shifted else none

protected def lt (a b : Day) : Prop :=
  a.month.count < b.month.count ∨ a.month.count = b.month.count ∧ a.number < b.number

protected def le (a b : Day) : Prop :=
  a.month.count < b.month.count ∨ a.month.count = b.month.count ∧ a.number ≤ b.number

instance : LT Day := ⟨Day.lt⟩

instance : LE Day := ⟨Day.le⟩

instance (a b : Day) : Decidable (a < b) := by
  change Decidable (_ ∨ _); infer_instance

instance (a b : Day) : Decidable (a ≤ b) := by
  change Decidable (_ ∨ _); infer_instance

instance : Min Day := ⟨fun a b => if a ≤ b then a else b⟩

instance : Max Day := ⟨fun a b => if a ≤ b then b else a⟩

theorem of?_eq_some_iff {year : Int} {month number : Nat} {d : Day} :
    of? year month number = some d ↔
      d.Supported ∧ d.year = year ∧ d.month.number = month ∧ d.number = number := by
  constructor
  · intro found
    simp only [of?] at found
    split at found
    · next exist =>
      cases found
      have lower : (1 : Int) ≤ month := by omega
      have upper : (month : Int) ≤ 12 := by omega
      have same : ((Month.ofYear year month).number : Int) = month :=
        Month.number_ofYear lower upper
      exact ⟨exist.1, Month.year_ofYear lower upper, Int.ofNat_inj.1 same, rfl⟩
    · cases found
  · rintro ⟨supported, rfl, rfl, rfl⟩
    have same : Month.ofYear d.year d.month.number = d.month := Month.ofYear_year_number d.month
    have exist : d.month.Supported ∧ 1 ≤ d.month.number ∧ d.month.number ≤ 12 ∧ 1 ≤ d.number ∧
        d.number ≤ d.month.length :=
      ⟨supported, Nat.le_add_left 1 _, d.month.number_le, d.number_pos, d.number_le⟩
    simp only [of?, same]
    rw [dif_pos exist]

theorem lt_iff {a b : Day} :
    a < b ↔ a.month.count < b.month.count ∨ a.month.count = b.month.count ∧ a.number < b.number :=
  Iff.rfl

theorem le_iff {a b : Day} :
    a ≤ b ↔ a.month.count < b.month.count ∨ a.month.count = b.month.count ∧ a.number ≤ b.number :=
  Iff.rfl

@[ext] theorem ext {a b : Day} (month : a.month = b.month) (number : a.number = b.number) :
    a = b := by
  cases a; cases b; cases month; cases number; rfl

theorem le_refl (a : Day) : a ≤ a := by rw [le_iff]; omega

theorem le_trans {a b c : Day} (left : a ≤ b) (right : b ≤ c) : a ≤ c := by
  rw [le_iff] at *; omega

theorem le_antisymm {a b : Day} (left : a ≤ b) (right : b ≤ a) : a = b := by
  rw [le_iff] at *
  have count : a.month.count = b.month.count := by omega
  have month : a.month = b.month := by
    cases ha : a.month; cases hb : b.month; simp_all
  exact Day.ext month (by omega)

theorem not_le {a b : Day} : ¬ a ≤ b ↔ b < a := by
  rw [le_iff, lt_iff]; omega

theorem lt_next (d : Day) : d < d.next := by
  rw [lt_iff, next]
  split
  · simp
  · simp only [Month.next, Month.plus, Month.first]; omega

theorem later_of_le {m : Month} {count : Nat} (fits : count < m.length) :
    m.first.later count = ⟨m, count + 1, by omega, fits⟩ := by
  induction count with
  | zero => rfl
  | succ count ih =>
    rw [later, ih (by omega), next, dif_pos (show count + 1 + 1 ≤ m.length from fits)]

end Day

def Month.last? (m : Month) : Option Day := m.next.first?.bind Day.previous?

/-- The number of days in the month of a day. No month comes after the last, which is a December. -/
def Day.daysInMonth (d : Day) : Nat := d.month.last?.elim 31 Day.number

end Roadmap.Calendar
