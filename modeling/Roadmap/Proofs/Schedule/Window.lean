import Roadmap.Proofs.Calendar.Shift
import Roadmap.Proofs.Calendar.Token
import Roadmap.Schedule.Workload

namespace Roadmap

open Calendar

namespace Window

theorem back_le (d : Day) : back d ≤ d := by
  unfold back
  cases moved : d.addMonths? (-1) with
  | none => exact Day.le_refl d
  | some e => exact Day.le_of_lt (Day.lt_of_addMonths?_back moved)

theorem le_ahead (d : Day) : d ≤ ahead d := by
  unfold ahead
  cases moved : d.addMonths? 1 with
  | none => exact Day.le_refl d
  | some e => exact Day.le_of_lt (Day.lt_of_addMonths?_ahead moved)

theorem supported_addMonths {d : Day} (supported : d.Supported) (months : Int) :
    ((d.addMonths? months).getD d).Supported := by
  unfold Day.addMonths?
  dsimp only
  split
  · next fits => exact fits.2
  · exact supported

/-- Widening a hull by more days, it still lies around what it lay around, and each of its ends is
an end that one of the days had. -/
theorem foldl_widen (days : List (Day × Day)) (hull : Day × Day) :
    let wide := days.foldl (fun (least, greatest) (start, finish) =>
      (min least start, max greatest finish)) hull
    (∀ p ∈ hull :: days, wide.1 ≤ p.1 ∧ p.2 ≤ wide.2) ∧
      (∃ p ∈ hull :: days, wide.1 = p.1) ∧ ∃ p ∈ hull :: days, wide.2 = p.2 := by
  induction days generalizing hull with
  | nil => simp [Day.le_refl]
  | cons p days ih =>
    obtain ⟨around, ⟨q, first, least⟩, ⟨r, last, greatest⟩⟩ := ih (min hull.1 p.1, max hull.2 p.2)
    have low := Day.min_le hull.1 p.1
    have high := Day.le_max hull.2 p.2
    -- The widened hull lies around the one before, and so around all that this lay around.
    have widened := around _ List.mem_cons_self
    refine ⟨fun q member => ?_, ?_, ?_⟩
    · simp only [List.mem_cons] at member
      rcases member with rfl | rfl | later
      · exact ⟨Day.le_trans widened.1 low.1, Day.le_trans high.1 widened.2⟩
      · exact ⟨Day.le_trans widened.1 low.2, Day.le_trans high.2 widened.2⟩
      · exact around q (List.mem_cons_of_mem _ later)
    · rcases List.mem_cons.1 first with rfl | later
      · rcases Day.min_cases hull.1 p.1 with same | same
        · exact ⟨hull, by simp, least.trans same⟩
        · exact ⟨p, by simp, least.trans same⟩
      · exact ⟨q, by simp [later], least⟩
    · rcases List.mem_cons.1 last with rfl | later
      · rcases Day.max_cases hull.2 p.2 with same | same
        · exact ⟨hull, by simp, greatest.trans same⟩
        · exact ⟨p, by simp, greatest.trans same⟩
      · exact ⟨r, by simp [later], greatest⟩

theorem hull?_bounds {days : List (Day × Day)} {hull : Day × Day} (found : hull? days = some hull) :
    (∀ p ∈ days, hull.1 ≤ p.1 ∧ p.2 ≤ hull.2) ∧
      (∃ p ∈ days, hull.1 = p.1) ∧ ∃ p ∈ days, hull.2 = p.2 := by
  cases days with
  | nil => cases found
  | cons p days =>
    cases found
    exact foldl_widen days p

theorem hull?_eq_none_iff {days : List (Day × Day)} : hull? days = none ↔ days = [] := by
  cases days with
  | nil => simp [hull?]
  | cons p days => simp [hull?]

end Window

theorem both_eq_some_iff {start? finish? : Option Day} {days : Day × Day} :
    (do return (← start?, ← finish?)) = some days ↔
      start? = some days.1 ∧ finish? = some days.2 := by
  cases start? <;> cases finish? <;> simp [Prod.ext_iff]

theorem ResolvedPhase.days?_eq_some_iff {p : ResolvedPhase} {days : Day × Day} :
    p.days? = some days ↔ p.startDay? = some days.1 ∧ p.finishDay? = some days.2 :=
  both_eq_some_iff

theorem PersonRow.days?_eq_some_iff {r : PersonRow} {days : Day × Day} :
    r.days? = some days ↔ r.startDay? = some days.1 ∧ r.finishDay? = some days.2 :=
  both_eq_some_iff

theorem ResolvedPhase.supported_of_days? {p : ResolvedPhase} {days : Day × Day}
    (dated : p.days? = some days) : days.1.Supported ∧ days.2.Supported := by
  obtain ⟨start, finish⟩ := ResolvedPhase.days?_eq_some_iff.1 dated
  exact ⟨DateToken.supported_of_day? start, DateToken.supported_of_day? finish⟩

namespace Window

theorem around_bounds {phases : List ResolvedPhase} {p : ResolvedPhase} (member : p ∈ phases)
    {days : Day × Day} (dated : p.days? = some days) (today : Day) :
    (around phases today).start ≤ days.1 ∧ days.2 ≤ (around phases today).finish := by
  have among : days ∈ phases.filterMap ResolvedPhase.days? := List.mem_filterMap.2 ⟨p, member, dated⟩
  cases found : hull? (phases.filterMap ResolvedPhase.days?) with
  | none =>
    rw [hull?_eq_none_iff.1 found] at among
    cases among
  | some hull =>
    have bounds := (hull?_bounds found).1 days among
    simp only [around, found, Option.getD_some]
    exact ⟨Day.le_trans (back_le _) bounds.1, Day.le_trans bounds.2 (le_ahead _)⟩

theorem supported_around {phases : List ResolvedPhase} {today : Day}
    (anchored : today.Supported ∨ ∃ p ∈ phases, ∃ days, p.days? = some days) :
    (around phases today).start.Supported ∧ (around phases today).finish.Supported := by
  cases found : hull? (phases.filterMap ResolvedPhase.days?) with
  | none =>
    have supported : today.Supported := by
      rcases anchored with supported | ⟨p, member, days, dated⟩
      · exact supported
      · have among := List.mem_filterMap.2 ⟨p, member, dated⟩
        rw [hull?_eq_none_iff.1 found] at among
        cases among
    simp only [around, found, Option.getD_none]
    exact ⟨supported_addMonths supported (-1), supported_addMonths supported 1⟩
  | some hull =>
    obtain ⟨-, ⟨first, among, least⟩, ⟨last, among', greatest⟩⟩ := hull?_bounds found
    obtain ⟨p, -, dated⟩ := List.mem_filterMap.1 among
    obtain ⟨q, -, dated'⟩ := List.mem_filterMap.1 among'
    simp only [around, found, Option.getD_some, least, greatest]
    exact ⟨supported_addMonths (ResolvedPhase.supported_of_days? dated).1 (-1),
      supported_addMonths (ResolvedPhase.supported_of_days? dated').2 1⟩

theorem mem_months_iff {w : Window} {m : Month} :
    m ∈ w.months ↔ w.start.month.count ≤ m.count ∧ m.count ≤ w.finish.month.count := by
  simp only [months, monthCount, monthIndex, List.mem_map, List.mem_range]
  constructor
  · rintro ⟨i, inside, rfl⟩
    simp only [monthAt, Month.plus]
    omega
  · rintro ⟨lower, upper⟩
    refine ⟨(m.count - w.start.month.count).toNat, by omega, Month.eq_of_count ?_⟩
    simp only [monthAt, Month.plus]
    omega

end Window

def MonthSlot.calendarMonth (slot : MonthSlot) : Month := .ofYear slot.year slot.month

namespace Window

@[simp] theorem calendarMonth_slotAt (w : Window) (index : Nat) :
    (w.slotAt index).calendarMonth = w.monthAt index :=
  Month.ofYear_year_number _

theorem map_calendarMonth_slots (w : Window) : w.slots.map MonthSlot.calendarMonth = w.months := by
  simp [slots, months, Function.comp_def]

theorem exists_slot_iff {w : Window} {m : Month} :
    (∃ slot ∈ w.slots, slot.calendarMonth = m) ↔
      w.start.month.count ≤ m.count ∧ m.count ≤ w.finish.month.count := by
  rw [← mem_months_iff, ← map_calendarMonth_slots, List.mem_map]

theorem bounds?_of_mem {w : Window} {slot : MonthSlot} (member : slot ∈ w.slots)
    (supported : slot.calendarMonth.Supported) :
    slot.bounds? = some (slot.calendarMonth.first, slot.calendarMonth.last) := by
  obtain ⟨index, -, rfl⟩ := List.mem_map.1 member
  rw [calendarMonth_slotAt] at supported ⊢
  have first : Day.of? (w.slotAt index).year (w.slotAt index).month 1 =
      some (w.monthAt index).first := Day.of?_eq_some_iff.2 ⟨supported, rfl, rfl, rfl⟩
  have length : (w.monthAt index).first.daysInMonth = (w.monthAt index).length :=
    Day.daysInMonth_eq supported
  have last : Day.of? (w.slotAt index).year (w.slotAt index).month
      (w.monthAt index).first.daysInMonth = some (w.monthAt index).last :=
    Day.of?_eq_some_iff.2 ⟨supported, rfl, rfl, length.symm⟩
  simp only [MonthSlot.bounds?, first, last, Option.bind_eq_bind, Option.bind_some]
  rfl

theorem filterMap_bounds?_slots {w : Window} (start : w.start.Supported)
    (finish : w.finish.Supported) :
    w.slots.filterMap MonthSlot.bounds? = w.months.map fun m => (m.first, m.last) := by
  have bounds : ∀ slot ∈ w.slots,
      slot.bounds? = some (slot.calendarMonth.first, slot.calendarMonth.last) := by
    intro slot member
    obtain ⟨lower, upper⟩ := exists_slot_iff.1 ⟨slot, member, rfl⟩
    exact bounds?_of_mem member (Month.supported_of_between start finish lower upper)
  rw [List.filterMap_congr bounds, ← map_calendarMonth_slots, List.map_map]
  exact congrFun List.filterMap_eq_map' w.slots

end Window

namespace PersonRow

def touches (r : PersonRow) (m : Month) : Bool :=
  match r.startDay?, r.finishDay? with
  | some start, some finish => start.month.count ≤ m.count && m.count ≤ finish.month.count
  | _, _ => false

theorem touches_iff {r : PersonRow} {m : Month} :
    r.touches m = true ↔
      ∃ days, r.days? = some days ∧ days.1.month.count ≤ m.count ∧
        m.count ≤ days.2.month.count := by
  unfold touches days?
  cases r.startDay? <;> cases r.finishDay? <;> simp

theorem overlaps_of_days? {r : PersonRow} {days : Day × Day} (dated : r.days? = some days)
    (first last : Day) :
    r.overlaps first last = (decide (days.1 ≤ last) && decide (first ≤ days.2)) := by
  obtain ⟨start, finish⟩ := days?_eq_some_iff.1 dated
  unfold overlaps
  rw [start, finish]

theorem overlaps_of_undated {r : PersonRow} (undated : r.days? = none) (first last : Day) :
    r.overlaps first last = false := by
  unfold overlaps
  cases start : r.startDay? <;> cases finish : r.finishDay? <;> simp_all [days?]

theorem overlaps_month (r : PersonRow) (m : Month) :
    r.overlaps m.first m.last = r.touches m := by
  unfold touches overlaps
  cases r.startDay? <;> cases r.finishDay? <;> simp [Month.first_le_iff, Month.le_last_iff]

end PersonRow

theorem Schedule.supported_window (projects : List Project) {today : Day}
    (supported : today.Supported) :
    (ofProjects projects today).window.start.Supported ∧
      (ofProjects projects today).window.finish.Supported :=
  Window.supported_around (.inl supported)

theorem exists_phase_of_mem_personRows {phases : List ResolvedPhase} {row : PersonRow}
    (member : row ∈ personRows phases) : ∃ p ∈ phases, row.days? = p.days? := by
  obtain ⟨p, among, own⟩ := List.mem_flatMap.1 member
  obtain ⟨share, -, rfl⟩ := List.mem_map.1 own
  exact ⟨p, among, rfl⟩

end Roadmap
