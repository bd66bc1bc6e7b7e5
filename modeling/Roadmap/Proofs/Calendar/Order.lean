import Mathlib.Order.Cover
import Roadmap.Calendar.Day

namespace Roadmap.Calendar

namespace Month

theorem eq_of_count {a b : Month} (same : a.count = b.count) : a = b := by
  cases a
  cases b
  simpa using same

theorem count_inj {a b : Month} : a.count = b.count ↔ a = b :=
  ⟨eq_of_count, congrArg count⟩

theorem supported_of_between {first m last : Month} (from_first : first.Supported)
    (to_last : last.Supported) (lower : first.count ≤ m.count) (upper : m.count ≤ last.count) :
    m.Supported := by
  simp only [Supported, year] at *
  omega

theorem eq_of_year_number {a b : Month} (year : a.year = b.year) (number : a.number = b.number) :
    a = b := by
  rw [← ofYear_year_number a, ← ofYear_year_number b, year, number]

theorem eq_ofYear_iff {m : Month} {year number : Nat} (lower : 1 ≤ number)
    (upper : number ≤ 12) : m = ofYear year number ↔ m.year = year ∧ m.number = number := by
  constructor
  · rintro rfl
    refine ⟨year_ofYear (by omega) (by omega), ?_⟩
    exact Int.ofNat_inj.1 (number_ofYear (by omega) (by omega))
  · rintro ⟨years, rfl⟩
    rw [← years, ofYear_year_number]

theorem next_plus_neg_one (m : Month) : m.next.plus (-1) = m :=
  eq_of_count (by simp only [next, plus]; omega)

theorem plus_neg_one_next (m : Month) : (m.plus (-1)).next = m :=
  eq_of_count (by simp only [next, plus]; omega)

theorem supported_next_iff {m : Month} (supported : m.Supported) :
    m.next.Supported ↔ m ≠ ofYear lastYear 12 := by
  rw [ne_eq, ← count_inj]
  simp only [Supported, ofYear, next, plus, year, firstYear, lastYear] at supported ⊢
  omega

theorem first_le_iff {m : Month} {d : Day} : m.first ≤ d ↔ m.count ≤ d.month.count := by
  have positive := d.number_pos
  rw [Day.le_iff]
  simp only [first]
  omega

theorem le_last_iff {m : Month} {d : Day} : d ≤ m.last ↔ d.month.count ≤ m.count := by
  rw [Day.le_iff]
  constructor
  · simp only [last]
    omega
  · intro before
    by_cases same : d.month = m
    · subst same
      exact .inr ⟨rfl, d.number_le⟩
    · have other : d.month.count ≠ m.count := fun count => same (eq_of_count count)
      exact .inl (by simp only [last]; omega)

end Month

namespace Day

theorem month_le_of_le {a b : Day} (le : a ≤ b) : a.month.count ≤ b.month.count := by
  rw [le_iff] at le
  omega

theorem le_total (a b : Day) : a ≤ b ∨ b ≤ a := by
  rw [le_iff, le_iff]
  omega

theorem le_of_lt {a b : Day} (less : a < b) : a ≤ b := by
  rw [lt_iff] at less
  rw [le_iff]
  omega

theorem lt_trichotomy (a b : Day) : a < b ∨ a = b ∨ b < a := by
  by_cases before : a ≤ b
  · by_cases after : b ≤ a
    · exact .inr (.inl (le_antisymm before after))
    · exact .inl (not_le.1 after)
  · exact .inr (.inr (not_le.1 before))

theorem lt_of_lt_of_le {a b c : Day} (left : a < b) (right : b ≤ c) : a < c := by
  rw [lt_iff] at *
  rw [le_iff] at right
  omega

theorem lt_of_le_of_lt {a b c : Day} (left : a ≤ b) (right : b < c) : a < c := by
  rw [lt_iff] at *
  rw [le_iff] at left
  omega

theorem min_def (a b : Day) : min a b = if a ≤ b then a else b := rfl

theorem max_def (a b : Day) : max a b = if a ≤ b then b else a := rfl

theorem min_le (a b : Day) : min a b ≤ a ∧ min a b ≤ b := by
  rw [min_def]
  split
  · next le => exact ⟨le_refl a, le⟩
  · next more => exact ⟨(le_total a b).resolve_left more, le_refl b⟩

theorem le_max (a b : Day) : a ≤ max a b ∧ b ≤ max a b := by
  rw [max_def]
  split
  · next le => exact ⟨le, le_refl b⟩
  · next more => exact ⟨le_refl a, (le_total a b).resolve_left more⟩

theorem min_cases (a b : Day) : min a b = a ∨ min a b = b := by
  rw [min_def]
  split
  · exact .inl rfl
  · exact .inr rfl

theorem max_cases (a b : Day) : max a b = a ∨ max a b = b := by
  rw [max_def]
  split
  · exact .inr rfl
  · exact .inl rfl

theorem later_add (d : Day) (a b : Nat) : d.later (a + b) = (d.later a).later b := by
  induction b with
  | zero => rfl
  | succ b ih => rw [← Nat.add_assoc, later, later, ih]

theorem le_later (d : Day) (count : Nat) : d ≤ d.later count := by
  induction count with
  | zero => exact le_refl d
  | succ count ih => exact le_trans ih (le_of_lt (lt_next _))

theorem later_le_later (d : Day) {a b : Nat} (le : a ≤ b) : d.later a ≤ d.later b := by
  obtain ⟨more, rfl⟩ := Nat.exists_eq_add_of_le le
  rw [later_add]
  exact le_later _ _

theorem later_lt_later (d : Day) {a b : Nat} (less : a < b) : d.later a < d.later b :=
  lt_of_lt_of_le (lt_next (d.later a)) (later_le_later d less)

theorem first_later_length (m : Month) : m.first.later m.length = m.next.first := by
  obtain ⟨count, long⟩ := Nat.exists_eq_add_of_le' m.length_pos
  rw [long, later, later_of_le (by omega), next, dif_neg (by simp only; omega)]

theorem first_later_number (d : Day) : d.month.first.later (d.number - 1) = d := by
  have positive := d.number_pos
  have fits := d.number_le
  rw [later_of_le (by omega)]
  exact Day.ext rfl (by simp only; omega)

theorem first_later_lt_next (m : Month) (count : Nat) :
    m.first.later count < m.next.first.later count := by
  have positive := m.length_pos
  rw [← first_later_length, ← later_add]
  exact later_lt_later _ (by omega)

def greatest : Day := (Month.ofYear Month.lastYear 12).last

theorem next_le_of_lt {a b : Day} (less : a < b) : a.next ≤ b := by
  have positive := b.number_pos
  have fits := b.number_le
  rw [lt_iff] at less
  unfold next
  split
  · rw [le_iff]
    simp only
    omega
  · next last =>
    rw [Month.first_le_iff]
    simp only [Month.next, Month.plus]
    by_cases same : a.month = b.month
    · rw [same] at less last
      omega
    · have other : a.month.count ≠ b.month.count := fun count => same (Month.eq_of_count count)
      omega

theorem covBy_next (d : Day) : d ⋖ d.next :=
  ⟨lt_next d, fun _ later before => not_le.2 before (next_le_of_lt later)⟩

theorem supported_next_iff {d : Day} (supported : d.Supported) :
    d.next.Supported ↔ d ≠ greatest := by
  have fits := d.number_le
  unfold next
  split
  · next inside =>
    refine iff_of_true supported fun last => ?_
    rw [last] at inside
    exact absurd inside (by simp [greatest, Month.last])
  · next ending =>
    have number : d.number = d.month.length := by omega
    have last : d = greatest ↔ d.month = Month.ofYear Month.lastYear 12 := by
      constructor
      · rintro rfl
        rfl
      · intro month
        exact Day.ext month (number.trans (congrArg Month.length month))
    rw [ne_eq, last]
    exact Month.supported_next_iff supported

theorem previous_next_first (m : Month) : m.next.first.previous = m.last := by
  rw [previous, dif_neg (by simp [Month.first])]
  exact congrArg Month.last m.next_plus_neg_one

end Day

theorem Month.last?_of_supported {m : Month} (supported : m.Supported) (next : m.next.Supported) :
    m.last? = some m.last := by
  have last : m.last.Supported := supported
  rw [last?, first?, if_pos next, Option.bind_some, Day.previous?, Day.previous_next_first,
    if_pos last]

theorem Day.daysInMonth_eq {d : Day} (supported : d.Supported) :
    d.daysInMonth = d.month.length := by
  by_cases next : d.month.next.Supported
  · rw [daysInMonth, Month.last?_of_supported supported next]
    rfl
  · have december : d.month = .ofYear Month.lastYear 12 := by
      by_contra other
      exact next ((Month.supported_next_iff supported).2 other)
    rw [daysInMonth, Month.last?, Month.first?, if_neg next, december]
    rfl

end Roadmap.Calendar
