import Roadmap.Proofs.Calendar.Granularity
import Roadmap.Proofs.Calendar.Shift
import Roadmap.Proofs.Schedule.Window
import Roadmap.Schedule.Checked

namespace Roadmap

open Calendar

def MonthSlot.Shows (slot : MonthSlot) (m : Month) : Prop :=
  slot.year = m.year ∧ slot.month = m.number

def labelYear (year : Int) : List Char :=
  if year < 0 then '-' :: padded 3 year.natAbs else padded 4 year.toNat

theorem toList_monthLabel (m : Month) :
    (monthLabel m).toList = labelYear m.year ++ '-' :: padded 2 m.number :=
  String.toList_ofList

theorem length_padded_number (m : Month) : (padded 2 m.number).length = 2 :=
  length_padded (by decide) (Nat.lt_of_le_of_lt m.number_le (by decide))

theorem labelYear_inj {a b : Int} (same : labelYear a = labelYear b) : a = b := by
  -- Only a year before 0 starts with a sign, and past it the digits spell the number.
  have minus : ∀ width number, '-' ∉ padded width number := fun width number member =>
    absurd (isDigit_padded _ member) (by decide)
  unfold labelYear at same
  split at same <;> split at same
  · next negA negB =>
    have value := congrArg Decimal.ofDigits (List.cons.inj same).2
    rw [ofDigits_padded, ofDigits_padded] at value
    omega
  · exact absurd (same ▸ List.mem_cons_self) (minus 4 b.toNat)
  · exact absurd (same ▸ List.mem_cons_self) (minus 4 a.toNat)
  · next negA negB =>
    have value := congrArg Decimal.ofDigits same
    rw [ofDigits_padded, ofDigits_padded] at value
    omega

theorem monthLabel_inj {a b : Month} (same : monthLabel a = monthLabel b) : a = b := by
  have texts := congrArg String.toList same
  rw [toList_monthLabel, toList_monthLabel] at texts
  obtain ⟨years, rest⟩ := List.append_inj' texts
    (by rw [List.length_cons, List.length_cons, length_padded_number, length_padded_number])
  have numbers := congrArg Decimal.ofDigits (List.cons.inj rest).2
  rw [ofDigits_padded, ofDigits_padded] at numbers
  exact Month.eq_of_year_number (labelYear_inj years) numbers

theorem monthLabel_ne_number (m : Month) : String.ofList (padded 2 m.number) ≠ monthLabel m := by
  intro same
  have long := congrArg (fun text => text.toList.length) same
  simp only [toList_monthLabel, String.toList_ofList, List.length_append, List.length_cons] at long
  omega

theorem monthLabel_eq_ofMonth {m : Month} (lower : 0 ≤ m.year) :
    monthLabel m = (DateToken.ofMonth m.year.toNat m.number).text := by
  simp only [monthLabel, DateToken.ofMonth, if_neg (Int.not_lt.2 lower)]

namespace Window

variable (w : Window)

theorem length_slots : w.slots.length = w.monthCount := by simp [slots]

theorem getElem?_slots_eq_some_iff {w : Window} {index : Nat} {slot : MonthSlot} :
    w.slots[index]? = some slot ↔ index < w.monthCount ∧ w.slotAt index = slot := by
  simp [slots, List.getElem?_eq_some_iff]

theorem slots_eq_nil_iff : w.slots = [] ↔ w.finish.month.count < w.start.month.count := by
  rw [← List.length_eq_zero_iff, length_slots, monthCount, monthIndex]
  omega

theorem shows_slotAt_iff {w : Window} {index : Nat} {m : Month} :
    (w.slotAt index).Shows m ↔ w.monthAt index = m := by
  constructor
  · exact fun ⟨year, number⟩ => Month.eq_of_year_number year number
  · rintro rfl
    exact ⟨rfl, rfl⟩

theorem exists_shows_iff {m : Month} :
    (∃ slot ∈ w.slots, slot.Shows m) ↔
      w.start.month.count ≤ m.count ∧ m.count ≤ w.finish.month.count := by
  rw [← mem_months_iff]
  simp [slots, months, shows_slotAt_iff]

theorem pairwise_slots :
    w.slots.Pairwise fun a b => a.year < b.year ∨ a.year = b.year ∧ a.month < b.month := by
  rw [slots, List.pairwise_map]
  refine List.pairwise_lt_range.imp fun less => ?_
  simp only [slotAt, monthAt, Month.plus, Month.year, Month.number]
  omega

theorem monthIndex_eq_iff {w : Window} {d : Day} {index : Nat} :
    w.monthIndex d = index ∧ index < w.slots.length ↔
      ∃ slot, w.slots[index]? = some slot ∧ slot.Shows d.month := by
  have month : w.monthIndex d = index ↔ w.monthAt index = d.month := by
    rw [← Month.count_inj]
    simp only [monthIndex, monthAt, Month.plus]
    omega
  simp [getElem?_slots_eq_some_iff, length_slots, month, shows_slotAt_iff, and_comm]

theorem monthIndex_of_contains {d : Day} (inside : w.contains d = true) :
    0 ≤ w.monthIndex d ∧ w.monthIndex d < w.slots.length := by
  simp only [contains, Bool.and_eq_true, decide_eq_true_eq] at inside
  have lower := Day.month_le_of_le inside.1
  have upper := Day.month_le_of_le inside.2
  rw [length_slots]
  simp only [monthIndex, monthCount]
  omega

theorem isFirstOfYear_slotAt_iff (index : Nat) :
    (w.slotAt index).isFirstOfYear = true ↔ index = 0 ∨ (w.slotAt index).month = 1 := by
  simp only [slotAt, Bool.or_eq_true, decide_eq_true_eq]
  by_cases zero : index = 0
  · simp [zero]
  · simp only [zero, false_or, monthAt, Month.plus, Month.year, Month.number]
    omega

theorem existsUnique_first {w : Window} {slot : MonthSlot} (member : slot ∈ w.slots) :
    ∃! index : Nat, ∃ first : MonthSlot, w.slots[index]? = some first ∧ first.isFirstOfYear = true ∧
      first.year = slot.year := by
  obtain ⟨here, inside⟩ := List.mem_iff_getElem?.1 member
  obtain ⟨inside, rfl⟩ := getElem?_slots_eq_some_iff.1 inside
  have first_iff : ∀ index, (∃ first : MonthSlot, w.slots[index]? = some first ∧
      first.isFirstOfYear = true ∧ first.year = (w.slotAt here).year) ↔ index < w.monthCount ∧
        (index = 0 ∨ (w.slotAt index).month = 1) ∧
          (w.slotAt index).year = (w.slotAt here).year := by
    intro index
    simp [getElem?_slots_eq_some_iff, and_assoc, isFirstOfYear_slotAt_iff]
  simp only [first_iff]
  simp only [slotAt, monthAt, Month.plus, Month.year, Month.number]
  generalize w.start.month.count = start
  -- January of the year, or the first slot if that lies before the window.
  refine ⟨((start + here) / 12 * 12 - start).toNat, ?_, ?_⟩
  · dsimp only
    omega
  · intro index shown
    omega

theorem shortLabel_slotAt_iff (index : Nat) :
    (w.slotAt index).shortLabel = (w.slotAt index).label ↔
      (w.slotAt index).isFirstOfYear = true := by
  have other := monthLabel_ne_number (w.monthAt index)
  simp only [slotAt]
  split
  · next first => exact iff_of_true rfl first
  · next later => exact iff_of_false other later

theorem nodup_labels : (w.slots.map MonthSlot.label).Nodup := by
  have labels : w.slots.map MonthSlot.label =
      (List.range w.monthCount).map (monthLabel ∘ w.monthAt) := by
    simp [slots, Function.comp_def, slotAt]
  have different : Function.Injective (monthLabel ∘ w.monthAt) := by
    intro a b same
    have count := congrArg Month.count (monthLabel_inj same)
    simp only [monthAt, Month.plus] at count
    omega
  rw [labels]
  exact List.nodup_range.map different

theorem token_slotAt {index : Nat} (lower : 0 ≤ (w.slotAt index).year)
    (upper : (w.slotAt index).year ≤ 9999) :
    (DateToken.mk (w.slotAt index).label).isMonth = true ∧
      (DateToken.mk (w.slotAt index).label).day? .start = some (w.monthAt index).first ∧
      (DateToken.mk (w.slotAt index).label).day? .finish = some (w.monthAt index).last ∧
      ∀ {α : Type} [Measure α],
        w.offset? (DateToken.mk (w.slotAt index).label) = some (Measure.ofInt index : α) := by
  have positive : 0 ≤ (w.monthAt index).year := lower
  have number := (w.monthAt index).number_le
  have years : (w.monthAt index).year.toNat ≤ 9999 := by
    simp only [slotAt] at upper
    omega
  have numbers : (w.monthAt index).number ≤ 99 := by omega
  have label : DateToken.mk (w.slotAt index).label =
      .ofMonth (w.monthAt index).year.toNat (w.monthAt index).number :=
    congrArg DateToken.mk (monthLabel_eq_ofMonth positive)
  have month : Month.ofYear (w.monthAt index).year.toNat (w.monthAt index).number =
      w.monthAt index := by
    rw [Int.toNat_of_nonneg positive, Month.ofYear_year_number]
  have position : w.monthIndex (w.monthAt index).first = index := by
    simp only [monthIndex, Month.first, monthAt, Month.plus]
    omega
  have token := DateToken.isMonth_ofMonth years numbers
  obtain ⟨start, finish⟩ :=
    DateToken.readings_ofMonth years numbers (Nat.le_add_left 1 _) number
  rw [month] at start finish
  rw [label]
  refine ⟨token, start, finish, ?_⟩
  intro α _
  simp only [offset?, start, Option.map_some, token, if_true, position]

theorem checkedIndex_eq {w : Window} {d : Day} (start : w.start.Supported)
    (supported : d.Supported) : w.checkedIndex d = pure (w.monthIndex d) := by
  have value : (d.year - w.start.year) * 12 +
      (((d.month.number - 1 : Nat) : Int) - ((w.start.month.number - 1 : Nat) : Int)) =
      w.monthIndex d := by
    simp only [monthIndex, Day.year, Month.year, Month.number]
    omega
  have number := d.month.number_le
  have number' := w.start.month.number_le
  simp only [Day.Supported, Month.Supported, Month.firstYear, Month.lastYear] at start supported
  rw [checkedIndex, Checked.result_eq, pure_bind, Checked.result_eq, pure_bind, Checked.result_eq,
    pure_bind, Checked.result_eq, value]
  all_goals
    simp only [IntType.least, IntType.greatest, Day.year]
    omega

def yearBefore (w : Window) : Nat → Option Int
  | 0 => none
  | index + 1 => some (w.monthAt index).year

theorem ne_yearBefore_iff (index : Nat) :
    decide (w.yearBefore index ≠ some (w.monthAt index).year) = (w.slotAt index).isFirstOfYear := by
  cases index with
  | zero => simp [yearBefore, slotAt]
  | succ index => simp [yearBefore, slotAt]

theorem checkedSlot_eq {w : Window} (start : w.start.Supported) {index : Nat}
    (supported : (w.monthAt index).Supported) :
    w.checkedSlot (w.yearBefore index) index = pure (w.slotAt index) := by
  have total : w.start.year * 12 + ((w.start.month.number - 1 : Nat) : Int) + index =
      (w.monthAt index).count := by
    simp only [monthAt, Month.plus, Day.year, Month.year, Month.number]
    omega
  have year : (w.monthAt index).count / 12 = (w.monthAt index).year := rfl
  have number : (w.monthAt index).count % 12 + 1 = (w.monthAt index).number := by
    simp only [Month.number]
    omega
  have few := (w.monthAt index).number_le
  have few' := w.start.month.number_le
  have same : w.start.year = w.start.month.year := rfl
  -- The years that can be written are few, so no number on the way leaves its type.
  simp only [Day.Supported, Month.Supported, Month.firstYear, Month.lastYear] at start supported
  rw [checkedSlot, Checked.result_eq, pure_bind, Checked.result_eq, pure_bind, Checked.result_eq,
    pure_bind, total]
  · dsimp only
    rw [number, Checked.result_eq, pure_bind, year, Month.ofYear_year_number, ne_yearBefore_iff,
      Int.toNat_natCast]
    · rfl
    all_goals
      simp only [IntType.least, IntType.greatest]
      omega
  all_goals
    simp only [IntType.least, IntType.greatest]
    omega

/-- The loop over the slots, whatever comes after it: each slot finds the year of the one before. -/
theorem checkedSlotsFrom_eq {w : Window} (start : w.start.Supported) (index left : Nat)
    (supported : ∀ i < index + left, (w.monthAt i).Supported) :
    w.checkedSlotsFrom (w.yearBefore index) index left =
      pure ((List.range' index left).map w.slotAt) := by
  induction left generalizing index with
  | zero => rfl
  | succ left ih =>
    have here := checkedSlot_eq start (supported index (by omega))
    have rest : w.checkedSlotsFrom (some (w.slotAt index).year) (index + 1 : Nat) left = _ :=
      ih (index + 1) fun i inside => supported i (by omega)
    rw [checkedSlotsFrom, here, pure_bind, ← Int.natCast_succ, rest, pure_bind, List.range'_succ,
      List.map_cons]

theorem checkedSlots_eq {w : Window} (start : w.start.Supported) (finish : w.finish.Supported) :
    w.checkedSlots = pure w.slots := by
  have count : (w.monthIndex w.finish + 1).toNat = w.monthCount := rfl
  have supported : ∀ i < 0 + w.monthCount, (w.monthAt i).Supported := by
    intro i inside
    refine Month.supported_of_between start finish ?_ ?_ <;>
    · simp only [monthCount, monthIndex] at inside
      simp only [monthAt, Month.plus]
      omega
  have all := checkedSlotsFrom_eq start 0 w.monthCount supported
  rw [checkedSlots, checkedIndex_eq start finish, pure_bind, Checked.result_eq, pure_bind, count]
  · rw [slots, List.range_eq_range']
    exact all
  all_goals
    simp only [Day.Supported, Month.Supported, Month.year, Month.firstYear, Month.lastYear]
      at start finish
    simp only [IntType.least, IntType.greatest, monthIndex]
    omega

structure Aligned (w : Window) : Prop where
  empty_iff : w.slots = [] ↔ w.finish.month.count < w.start.month.count
  shows_iff (m : Month) : (∃ slot ∈ w.slots, slot.Shows m) ↔
    w.start.month.count ≤ m.count ∧ m.count ≤ w.finish.month.count
  increasing : w.slots.Pairwise fun a b => a.year < b.year ∨ a.year = b.year ∧ a.month < b.month
  index_iff (d : Day) (index : Nat) : w.monthIndex d = index ∧ index < w.slots.length ↔
    ∃ slot, w.slots[index]? = some slot ∧ slot.Shows d.month
  inside {d : Day} : w.contains d = true →
    0 ≤ w.monthIndex d ∧ w.monthIndex d < w.slots.length
  first_iff {index : Nat} {slot : MonthSlot} : w.slots[index]? = some slot →
    (slot.isFirstOfYear = true ↔ index = 0 ∨ slot.month = 1)
  once {slot : MonthSlot} : slot ∈ w.slots → ∃! index : Nat, ∃ first : MonthSlot,
    w.slots[index]? = some first ∧ first.isFirstOfYear = true ∧ first.year = slot.year
  short_iff {slot : MonthSlot} : slot ∈ w.slots →
    (slot.shortLabel = slot.label ↔ slot.isFirstOfYear = true)
  labels : (w.slots.map MonthSlot.label).Nodup
  token {index : Nat} {slot : MonthSlot} {m : Month} : w.slots[index]? = some slot →
    slot.Shows m → 0 ≤ slot.year → slot.year ≤ 9999 →
    (DateToken.mk slot.label).isMonth = true ∧
      (DateToken.mk slot.label).day? .start = some m.first ∧
      (DateToken.mk slot.label).day? .finish = some m.last ∧
      ∀ (α : Type) [Measure α],
        w.offset? (DateToken.mk slot.label) = some (Measure.ofInt index : α)

theorem aligned : w.Aligned where
  empty_iff := w.slots_eq_nil_iff
  shows_iff _ := w.exists_shows_iff
  increasing := w.pairwise_slots
  index_iff _ _ := monthIndex_eq_iff
  inside := w.monthIndex_of_contains
  first_iff found := by
    obtain ⟨-, rfl⟩ := getElem?_slots_eq_some_iff.1 found
    exact w.isFirstOfYear_slotAt_iff _
  once := existsUnique_first
  short_iff member := by
    obtain ⟨index, -, rfl⟩ := List.mem_map.1 member
    exact w.shortLabel_slotAt_iff index
  labels := w.nodup_labels
  token found shown lower upper := by
    obtain ⟨-, rfl⟩ := getElem?_slots_eq_some_iff.1 found
    obtain rfl := shows_slotAt_iff.1 shown
    obtain ⟨isMonth, start, finish, offset⟩ := w.token_slotAt lower upper
    exact ⟨isMonth, start, finish, fun _ _ => offset⟩

/-- In a window that can be written, the axis is also what comes out in integers of fixed width. -/
theorem aligned_and_checked {w : Window} (start : w.start.Supported)
    (finish : w.finish.Supported) :
    w.Aligned ∧ w.checkedSlots = .ok w.slots ∧
      ∀ d, d.Supported → w.checkedIndex d = .ok (w.monthIndex d) :=
  ⟨w.aligned, checkedSlots_eq start finish, fun _ supported => checkedIndex_eq start supported⟩

/-- Two days around the turn to year 0, the second on an earlier day of its month, and the whole
calendar. -/
theorem aligned_and_checked_turn :
    (Month.ofYear (-1) 12).last.Supported ∧ (Month.ofYear 0 1).first.Supported ∧
      (Window.mk (Month.ofYear (-1) 12).last (Month.ofYear 0 1).first).Aligned ∧
      (Window.mk (Month.ofYear (-1) 12).last (Month.ofYear 0 1).first).slots.map MonthSlot.label =
        ["-001-12", "0000-01"] ∧
      (Month.ofYear Month.firstYear 1).first.Supported ∧ Day.greatest.Supported ∧
      (Window.mk (Month.ofYear Month.firstYear 1).first Day.greatest).checkedIndex Day.greatest =
        .ok 6291431 := by
  have december : (Month.ofYear (-1) 12).last.Supported := by decide
  have january : (Month.ofYear 0 1).first.Supported := by decide
  have first : (Month.ofYear Month.firstYear 1).first.Supported := by decide
  have last : Day.greatest.Supported := by decide
  exact ⟨december, january, (aligned_and_checked december january).1, by decide +kernel, first,
    last, (aligned_and_checked first last).2.2 _ last⟩

end Window

end Roadmap
