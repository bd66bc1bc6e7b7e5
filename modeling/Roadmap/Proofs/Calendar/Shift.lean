import Roadmap.Calendar.Checked
import Roadmap.Proofs.Calendar.Order

namespace Roadmap.Calendar

namespace Month

theorem plus_zero (m : Month) : m.plus 0 = m :=
  eq_of_count (by simp [plus])

theorem plus_plus (m : Month) (a b : Int) : (m.plus a).plus b = m.plus (a + b) :=
  eq_of_count (by simp only [plus]; omega)

theorem of?_first (m : Month) : Day.of? m.year m.number 1 = m.first? := by
  unfold first?
  split
  · next supported => exact Day.of?_eq_some_iff.2 ⟨supported, rfl, rfl, rfl⟩
  · next unsupported =>
    rw [← Option.not_isSome_iff_eq_none, Option.isSome_iff_exists]
    rintro ⟨d, exist⟩
    obtain ⟨supported, year, number, -⟩ := Day.of?_eq_some_iff.1 exist
    have month : d.month = m := eq_of_year_number year number
    exact unsupported (month ▸ supported)

end Month

namespace Day

/-- No month is shorter than 28 days, so counting 31 days from its first ends in the month after
it at the latest. -/
theorem later_of_ge {m : Month} {count : Nat} (beyond : m.length ≤ count) (few : count < 31) :
    ∃ fits, m.first.later count = ⟨m.next, count - m.length + 1, by omega, fits⟩ := by
  have long := m.length_ge
  have next := m.next.length_ge
  obtain ⟨surplus, rfl⟩ := Nat.exists_eq_add_of_le beyond
  refine ⟨by omega, ?_⟩
  rw [later_add, first_later_length, later_of_le (by omega)]
  exact Day.ext rfl (by simp)

theorem number_le_31 (d : Day) : d.number ≤ 31 :=
  Nat.le_trans d.number_le d.month.length_le

/-- The last month of all has 31 days, so no day runs over its end. -/
theorem supported_later {m : Month} (supported : m.Supported) {count : Nat} (few : count < 31) :
    (m.first.later count).Supported := by
  by_cases inside : count < m.length
  · rw [later_of_le inside]
    exact supported
  · obtain ⟨_, same⟩ := later_of_ge (Nat.le_of_not_lt inside) few
    rw [same]
    refine (Month.supported_next_iff supported).2 fun last => ?_
    have length : m.length = 31 := by rw [last]; rfl
    omega

theorem addMonths?_eq_some_iff {d e : Day} {months : Int} :
    d.addMonths? months = some e ↔
      (d.month.plus months).Supported ∧
        (d.month.plus months).first.later (d.number - 1) = e := by
  have few : d.number - 1 < 31 := by
    have := d.number_le_31
    have := d.number_pos
    omega
  unfold addMonths?
  dsimp only
  constructor
  · split
    · next exist => exact fun same => ⟨exist.1, Option.some.inj same⟩
    · intro absent
      cases absent
  · rintro ⟨target, rfl⟩
    rw [if_pos ⟨target, supported_later target few⟩]

theorem isSome_addMonths? (d : Day) (months : Int) :
    (d.addMonths? months).isSome = true ↔ (d.month.plus months).Supported := by
  simp [Option.isSome_iff_exists, addMonths?_eq_some_iff]

theorem addMonths?_eq_none_iff {d : Day} {months : Int} :
    d.addMonths? months = none ↔ ¬ (d.month.plus months).Supported := by
  rw [← Option.not_isSome_iff_eq_none, isSome_addMonths?]

theorem addMonths?_inside {d e : Day} {months : Int} (moved : d.addMonths? months = some e)
    (inside : d.number ≤ (d.month.plus months).length) :
    e.month = d.month.plus months ∧ e.number = d.number := by
  have positive := d.number_pos
  obtain ⟨-, rfl⟩ := addMonths?_eq_some_iff.1 moved
  rw [later_of_le (by omega)]
  exact ⟨rfl, by simp only; omega⟩

theorem addMonths?_beyond {d e : Day} {months : Int} (moved : d.addMonths? months = some e)
    (beyond : (d.month.plus months).length < d.number) :
    e.month = (d.month.plus months).next ∧
      e.number = d.number - (d.month.plus months).length := by
  have few := d.number_le_31
  obtain ⟨-, rfl⟩ := addMonths?_eq_some_iff.1 moved
  have counted : (d.month.plus months).length ≤ d.number - 1 := by omega
  obtain ⟨_, same⟩ := later_of_ge counted (by omega)
  rw [same]
  exact ⟨rfl, by simp only; omega⟩

theorem first_later_lt (m : Month) (gap count : Nat) :
    m.first.later count < (m.plus (gap + 1)).first.later count := by
  induction gap with
  | zero => exact first_later_lt_next m count
  | succ gap ih =>
    have step := first_later_lt_next (m.plus (gap + 1)) count
    rw [Month.next, Month.plus_plus] at step
    exact lt_of_lt_of_le ih (le_of_lt step)

theorem addMonths?_lt {d e f : Day} {a b : Int} (less : a < b) (first : d.addMonths? a = some e)
    (second : d.addMonths? b = some f) : e < f := by
  obtain ⟨-, rfl⟩ := addMonths?_eq_some_iff.1 first
  obtain ⟨-, rfl⟩ := addMonths?_eq_some_iff.1 second
  have gap : b = a + ((b - a - 1).toNat + 1 : Nat) := by omega
  rw [gap, ← Month.plus_plus]
  exact first_later_lt _ _ _

theorem lt_of_addMonths?_back {d e : Day} (moved : d.addMonths? (-1) = some e) : e < d := by
  obtain ⟨-, rfl⟩ := addMonths?_eq_some_iff.1 moved
  have step := first_later_lt_next (d.month.plus (-1)) (d.number - 1)
  rwa [Month.plus_neg_one_next, first_later_number] at step

theorem lt_of_addMonths?_ahead {d e : Day} (moved : d.addMonths? 1 = some e) : d < e := by
  obtain ⟨-, rfl⟩ := addMonths?_eq_some_iff.1 moved
  have step := first_later_lt_next d.month (d.number - 1)
  rwa [first_later_number] at step

theorem addMonths?_zero {d : Day} (supported : d.Supported) : d.addMonths? 0 = some d := by
  rw [addMonths?_eq_some_iff, Month.plus_zero]
  exact ⟨supported, first_later_number d⟩

theorem addMonths?_addMonths? {d e : Day} (short : d.number ≤ 28) {a : Int}
    (moved : d.addMonths? a = some e) (b : Int) : e.addMonths? b = d.addMonths? (a + b) := by
  have inside := Nat.le_trans short (d.month.plus a).length_ge
  obtain ⟨month, number⟩ := addMonths?_inside moved inside
  rw [addMonths?, addMonths?, month, number, Month.plus_plus]

theorem addMonths?_neg {d e : Day} (supported : d.Supported) (short : d.number ≤ 28) {a : Int}
    (moved : d.addMonths? a = some e) : e.addMonths? (-a) = some d := by
  rw [addMonths?_addMonths? short moved, Int.add_right_neg, addMonths?_zero supported]

end Day

namespace Checked

theorem result_eq {t : IntType} {n : Int} (lower : t.least ≤ n) (upper : n ≤ t.greatest) :
    result t n = pure n :=
  if_pos ⟨lower, upper⟩

theorem firstOfMonth_eq {year months : Int} (years : IntType.int32.Holds year)
    (lower : -4294967296 ≤ months) (upper : months ≤ 4294967296) :
    firstOfMonth year months = pure ((Month.ofYear year 1).plus months).first? := by
  obtain ⟨total, count⟩ : ∃ total, year * 12 + months = total := ⟨_, rfl⟩
  have month : (Month.ofYear year 1).plus months = ⟨total⟩ :=
    Month.eq_of_count (by simp only [Month.ofYear, Month.plus]; omega)
  simp only [IntType.Holds, IntType.least, IntType.greatest] at years
  rw [firstOfMonth, result_eq, pure_bind, result_eq, pure_bind, count, month]
  · split
    · have number : (total % 12 + 1).toNat = (Month.mk total).number := by
        simp only [Month.number]
        omega
      rw [result_eq, pure_bind, number, ← Month.of?_first]
      · rfl
      all_goals simp only [IntType.least, IntType.greatest]; omega
    · next wide =>
      -- The calendar ends long before a year needs more than 32 bits.
      have unsupported : ¬ (Month.mk total).Supported := by
        simp only [IntType.Holds, IntType.least, IntType.greatest, Month.Supported, Month.year,
          Month.firstYear, Month.lastYear] at wide ⊢
        omega
      rw [Month.first?, if_neg unsupported]
  all_goals simp only [IntType.least, IntType.greatest]; omega

theorem holds_year {d : Day} (supported : d.Supported) : IntType.int32.Holds d.year := by
  simp only [Day.Supported, Month.Supported, Month.firstYear, Month.lastYear] at supported
  simp only [IntType.Holds, IntType.least, IntType.greatest, Day.year]
  omega

theorem addMonths_eq {d : Day} (supported : d.Supported) {months : Int}
    (holds : IntType.int32.Holds months) : addMonths d months = pure (d.addMonths? months) := by
  have number := d.month.number_le
  have positive := d.number_pos
  have few := d.number_le_31
  have target : (Month.ofYear d.year 1).plus ((d.month.number - 1 : Nat) + months) =
      d.month.plus months :=
    Month.eq_of_count (by
      simp only [Month.ofYear, Month.plus, Month.number, Day.year, Month.year]
      omega)
  simp only [IntType.Holds, IntType.least, IntType.greatest] at holds
  rw [addMonths, result_eq, pure_bind,
    firstOfMonth_eq (holds_year supported) (by omega) (by omega), pure_bind, target, Month.first?]
  · by_cases exist : (d.month.plus months).Supported
    · have days : ((d.number : Int) - 1).toNat = d.number - 1 := by omega
      rw [if_pos exist]
      simp only
      rw [result_eq, pure_bind, days, Day.addMonths?]
      · simp only [exist, true_and]
      all_goals simp only [IntType.least, IntType.greatest]; omega
    · rw [if_neg exist, Day.addMonths?_eq_none_iff.2 exist]
  all_goals simp only [IntType.least, IntType.greatest]; omega

theorem daysInMonth_eq {d : Day} (supported : d.Supported) :
    daysInMonth d = pure d.daysInMonth := by
  have number := d.month.number_le
  have next : (Month.ofYear d.year 1).plus d.month.number = d.month.next :=
    Month.eq_of_count (by
      simp only [Month.ofYear, Month.plus, Month.next, Month.number, Day.year, Month.year]
      omega)
  rw [daysInMonth, firstOfMonth_eq (holds_year supported) (by omega) (by omega), pure_bind, next]
  rfl

end Checked

namespace Day

structure ShiftsByMonths (d : Day) : Prop where
  defined (months : Int) : (d.addMonths? months).isSome = true ↔ (d.month.plus months).Supported
  inside {months : Int} {e : Day} : d.addMonths? months = some e →
    d.number ≤ (d.month.plus months).length →
    e.month = d.month.plus months ∧ e.number = d.number
  beyond {months : Int} {e : Day} : d.addMonths? months = some e →
    (d.month.plus months).length < d.number →
    e.month = (d.month.plus months).next ∧ e.number = d.number - (d.month.plus months).length
  increasing {a b : Int} {e f : Day} : a < b → d.addMonths? a = some e →
    d.addMonths? b = some f → e < f
  zero : d.addMonths? 0 = some d
  adds {a : Int} {e : Day} : d.number ≤ 28 → d.addMonths? a = some e →
    ∀ b, e.addMonths? b = d.addMonths? (a + b)
  undone {a : Int} {e : Day} : d.number ≤ 28 → d.addMonths? a = some e →
    e.addMonths? (-a) = some d

theorem shiftsByMonths {d : Day} (supported : d.Supported) :
    d.ShiftsByMonths ∧ d.daysInMonth = d.month.length ∧
      Checked.daysInMonth d = .ok d.month.length ∧
      ∀ months, IntType.int32.Holds months →
        Checked.addMonths d months = .ok (d.addMonths? months) := by
  refine ⟨?_, daysInMonth_eq supported, ?_,
    fun months holds => Checked.addMonths_eq supported holds⟩
  · exact {
      defined := isSome_addMonths? d
      inside := addMonths?_inside
      beyond := addMonths?_beyond
      increasing := addMonths?_lt
      zero := addMonths?_zero supported
      adds := fun short moved => addMonths?_addMonths? short moved
      undone := fun short moved => addMonths?_neg supported short moved }
  · rw [← daysInMonth_eq supported]
    exact Checked.daysInMonth_eq supported

/-- A 31st that runs over a February, and the last day of all, whose month no other follows. -/
theorem shiftsByMonths_last :
    (Month.ofYear 2025 1).last.Supported ∧ (Month.ofYear 2025 1).last.ShiftsByMonths ∧
      (Month.ofYear 2025 1).last.addMonths? 1 = of? 2025 3 3 ∧
      greatest.Supported ∧ greatest.daysInMonth = 31 ∧
      IntType.int32.Holds 2147483647 ∧ Checked.addMonths greatest 2147483647 = .ok none := by
  have january : (Month.ofYear 2025 1).last.Supported := by decide
  have last : greatest.Supported := by decide
  have wide : IntType.int32.Holds 2147483647 := by decide
  obtain ⟨shifts, -⟩ := shiftsByMonths january
  obtain ⟨-, length, -, checked⟩ := shiftsByMonths last
  refine ⟨january, shifts, by decide +kernel, last, length, wide, ?_⟩
  rw [checked _ wide]
  decide

end Day

end Roadmap.Calendar
