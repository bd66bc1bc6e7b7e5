import Roadmap.Proofs.Schedule.Rows
import Roadmap.Proofs.Schedule.Window

namespace Roadmap

open Calendar

/-- The row names a first and a last day, and no month of the two lies on the far side of `m`. -/
def PersonRow.CountsIn (r : PersonRow) (m : Month) : Prop :=
  ∃ first last, r.start.day? .start = some first ∧ r.finish.day? .finish = some last ∧
    first.month.count ≤ m.count ∧ m.count ≤ last.month.count

theorem PersonRow.countsIn_iff_touches {r : PersonRow} {m : Month} :
    r.CountsIn m ↔ r.touches m = true := by
  simp only [CountsIn, touches, startDay?, finishDay?]
  cases r.start.day? .start <;> cases r.finish.day? .finish <;> simp

instance (r : PersonRow) (m : Month) : Decidable (r.CountsIn m) :=
  decidable_of_iff _ PersonRow.countsIn_iff_touches.symm

def Schedule.loadOf (s : Schedule) (person : String) (m : Month) : Float :=
  sumFrom (-0.0)
    ((s.rows.filter fun row => row.person = person ∧ row.CountsIn m).map PersonRow.portion)

theorem Schedule.loadOf_eq (s : Schedule) (person : String) :
    s.loadOf person = fun m =>
      totalOf (((s.rowsOf person).filter fun row => row.touches m).map PersonRow.portion) := by
  funext m
  rw [loadOf, ← totalOf_eq_sumFrom, rowsOf, List.filter_filter]
  congr 2
  refine List.filter_congr fun row _ => ?_
  rw [Bool.eq_iff_iff]
  simp [PersonRow.countsIn_iff_touches, and_comm]

theorem loadWithin_datedPortions (rows : List PersonRow) (first last : Day) :
    loadWithin first last (datedPortions rows) =
      totalOf ((rows.filter fun row => row.overlaps first last).map PersonRow.portion) := by
  have each (row : PersonRow) :
      ((row.days?.map (·, row.portion)).filter fun portion =>
        portion.1.1 ≤ last && first ≤ portion.1.2).map Prod.snd =
        if row.overlaps first last then some row.portion else none := by
    cases dated : row.days? with
    | none => simp [PersonRow.overlaps_of_undated dated]
    | some days =>
      rw [PersonRow.overlaps_of_days? dated, Option.map_some, Option.filter_some]
      split <;> rfl
  have same : ((datedPortions rows).filter fun portion =>
        portion.1.1 ≤ last && first ≤ portion.1.2).map Prod.snd =
      (rows.filter fun row => row.overlaps first last).map PersonRow.portion := by
    rw [datedPortions, List.filter_filterMap, List.map_filterMap, ← List.filterMap_eq_map',
      List.filterMap_filter]
    exact List.filterMap_congr fun row _ => each row
  exact congrArg totalOf same

namespace Workload

theorem persons_ofSchedule {s : Schedule} (start : s.window.start.Supported)
    (finish : s.window.finish.Supported) :
    (ofSchedule s).persons =
      s.persons.map fun person => ⟨person, s.window.months.map (s.loadOf person)⟩ := by
  simp only [ofSchedule, Window.filterMap_bounds?_slots start finish, List.map_map,
    Function.comp_def, loadWithin_datedPortions, PersonRow.overlaps_month, Schedule.loadOf_eq]

theorem monthly_ofSchedule {s : Schedule} (start : s.window.start.Supported)
    (finish : s.window.finish.Supported) {p : PersonLoad} (member : p ∈ (ofSchedule s).persons) :
    p.monthly = s.window.slots.map fun slot => s.loadOf p.person slot.calendarMonth := by
  rw [persons_ofSchedule start finish] at member
  obtain ⟨person, -, rfl⟩ := List.mem_map.1 member
  simp only [← Window.map_calendarMonth_slots, List.map_map]
  rfl

structure Attributes (w : Workload) (s : Schedule) : Prop where
  months : w.months = s.window.slots
  persons : w.persons.map PersonLoad.person = s.persons
  aligned : ∀ p ∈ w.persons, p.monthly.length = w.months.length
  entry : ∀ p ∈ w.persons, ∀ (i : Nat) (slot : MonthSlot), w.months[i]? = some slot →
    p.monthly[i]? = some (s.loadOf p.person slot.calendarMonth)
  covered : ∀ row ∈ s.rows, ∀ m, row.CountsIn m → ∃ slot ∈ w.months, slot.calendarMonth = m
  undated : ∀ row ∈ s.rows, row.start.day? .start = none ∨ row.finish.day? .finish = none →
    ∀ m, ¬ row.CountsIn m

/-- The load of a person in a month is the sum of exactly the person's rows that touch the month,
and no month that a row touches is missing. -/
theorem attributes_ofSchedule (projects : List Project) {today : Day}
    (supported : today.Supported) :
    (ofSchedule (.ofProjects projects today)).Attributes (.ofProjects projects today) := by
  have window : (Schedule.ofProjects projects today).window =
      Window.around (resolvedPhases projects) today := rfl
  obtain ⟨start, finish⟩ := Window.supported_around (.inl supported)
  have monthly := fun p => monthly_ofSchedule (p := p) (window ▸ start) (window ▸ finish)
  constructor
  case months => rfl
  case persons =>
    rw [persons_ofSchedule (window ▸ start) (window ▸ finish), List.map_map]
    exact List.map_id _
  case aligned =>
    intro p member
    rw [monthly p member, List.length_map]
    rfl
  case entry =>
    intro p member i slot there
    rw [monthly p member, List.getElem?_map]
    exact congrArg _ there
  case covered =>
    rintro row member m ⟨first, last, starts, ends, lower, upper⟩
    obtain ⟨p, among, same⟩ := exists_phase_of_mem_personRows member
    have dated : row.days? = some (first, last) := PersonRow.days?_eq_some_iff.2 ⟨starts, ends⟩
    obtain ⟨before, after⟩ := Window.around_bounds among (same ▸ dated) today
    refine Window.exists_slot_iff.2 ⟨?_, ?_⟩
    · exact Int.le_trans (Day.month_le_of_le before) lower
    · exact Int.le_trans upper (Day.month_le_of_le after)
  case undated =>
    rintro row _ (unread | unread) m ⟨first, last, starts, ends, -⟩
    · exact Option.some_ne_none first (starts.symm.trans unread)
    · exact Option.some_ne_none last (ends.symm.trans unread)

/-- A phase that ends before it starts, one that follows it, and one with no day to end on. -/
def crooked : List Project :=
  [⟨"Web", [⟨"Design", some ⟨"2025-01-31"⟩, ⟨"2025-01-02"⟩, [⟨"Ann", 0.5⟩]⟩,
    ⟨"Build", none, ⟨"2025-03"⟩, [⟨"Ann", 1⟩, ⟨"Bo", 0.5⟩]⟩,
    ⟨"Ship", some ⟨"2025-04"⟩, ⟨"2025-13"⟩, [⟨"Bo", 1⟩]⟩]⟩]

theorem attributes_crooked :
    (Month.ofYear 2026 1).first.Supported ∧
      (ofSchedule (.ofProjects crooked (Month.ofYear 2026 1).first)).Attributes
        (.ofProjects crooked (Month.ofYear 2026 1).first) ∧
      (ofSchedule (.ofProjects crooked (Month.ofYear 2026 1).first)).persons.map
          (fun p => (p.person, p.monthly)) =
        [("Ann", [-0.0, 1.5, 1, 1, -0.0, -0.0]), ("Bo", [-0.0, 0.5, 0.5, 0.5, -0.0, -0.0])] :=
  ⟨by decide, attributes_ofSchedule crooked (by decide), by decide +kernel⟩

end Workload

end Roadmap
