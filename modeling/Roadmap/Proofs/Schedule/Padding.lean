import Mathlib.Order.Bounds.Basic
import Roadmap.Proofs.Schedule.Findings

namespace Roadmap

open Calendar

namespace Calendar.Day

theorem addMonths?_back_eq_none_iff {d : Day} (supported : d.Supported) :
    d.addMonths? (-1) = none ↔ d.month = .ofYear Month.firstYear 1 := by
  rw [addMonths?_eq_none_iff, ← Month.count_inj]
  simp only [Supported, Month.Supported, Month.ofYear, Month.plus, Month.year, Month.firstYear,
    Month.lastYear] at supported ⊢
  omega

theorem addMonths?_ahead_eq_none_iff {d : Day} (supported : d.Supported) :
    d.addMonths? 1 = none ↔ d.month = .ofYear Month.lastYear 12 := by
  have next : d.month.plus 1 = d.month.next := rfl
  rw [addMonths?_eq_none_iff, next, Month.supported_next_iff supported, not_not]

end Calendar.Day

namespace Window

def starts (phases : List ResolvedPhase) : Set Day :=
  {start | ∃ p ∈ phases, ∃ finish, p.days? = some (start, finish)}

def finishes (phases : List ResolvedPhase) : Set Day :=
  {finish | ∃ p ∈ phases, ∃ start, p.days? = some (start, finish)}

variable {phases : List ResolvedPhase}

theorem around_of_undated (undated : ∀ p ∈ phases, ¬ p.Dated) (today : Day) :
    around phases today = ⟨back today, ahead today⟩ := by
  have none : phases.filterMap ResolvedPhase.days? = [] :=
    List.filterMap_eq_nil_iff.2 fun p member =>
      Option.eq_none_iff_forall_ne_some.2 fun days found => undated p member ⟨days, found⟩
  rw [around, none]
  rfl

theorem around_of_dated (dated : ∃ p ∈ phases, p.Dated) (today : Day) :
    ∃ least greatest, IsLeast (starts phases) least ∧ IsGreatest (finishes phases) greatest ∧
      around phases today = ⟨back least, ahead greatest⟩ := by
  obtain ⟨p, member, days, found⟩ := dated
  have among : ∀ days, days ∈ phases.filterMap ResolvedPhase.days? ↔
      ∃ p ∈ phases, p.days? = some days := fun days => List.mem_filterMap
  cases hulled : hull? (phases.filterMap ResolvedPhase.days?) with
  | none =>
    have inside := (among days).2 ⟨p, member, found⟩
    rw [hull?_eq_none_iff.1 hulled] at inside
    cases inside
  | some hull =>
    obtain ⟨bounds, ⟨first, start, least⟩, ⟨last, finish, greatest⟩⟩ := hull?_bounds hulled
    refine ⟨hull.1, hull.2, ⟨?_, ?_⟩, ⟨?_, ?_⟩, ?_⟩
    · obtain ⟨q, member, found⟩ := (among first).1 start
      exact ⟨q, member, first.2, by rw [found, least]⟩
    · rintro day ⟨q, member, finish, found⟩
      exact (bounds _ ((among _).2 ⟨q, member, found⟩)).1
    · obtain ⟨q, member, found⟩ := (among last).1 finish
      exact ⟨q, member, last.1, by rw [found, greatest]⟩
    · rintro day ⟨q, member, start, found⟩
      exact (bounds _ ((among _).2 ⟨q, member, found⟩)).2
    · rw [around, hulled]
      rfl

theorem back_lt_of_le {least day : Day} (lower : least ≤ day) :
    if least.addMonths? (-1) = none then back least = least ∧ least ≤ day else back least < day := by
  unfold back
  cases moved : least.addMonths? (-1) with
  | none => simp [lower]
  | some e => simpa using Day.lt_of_lt_of_le (Day.lt_of_addMonths?_back moved) lower

theorem lt_ahead_of_le {greatest day : Day} (upper : day ≤ greatest) :
    if greatest.addMonths? 1 = none then ahead greatest = greatest ∧ day ≤ greatest
    else day < ahead greatest := by
  unfold ahead
  cases moved : greatest.addMonths? 1 with
  | none => simp [upper]
  | some e => simpa using Day.lt_of_le_of_lt upper (Day.lt_of_addMonths?_ahead moved)

theorem around_filter (phases : List ResolvedPhase) (today : Day) :
    around (phases.filter (·.days?.isSome)) today = around phases today := by
  have same : (phases.filter (·.days?.isSome)).filterMap ResolvedPhase.days? =
      phases.filterMap ResolvedPhase.days? := by
    rw [← List.filterMap_eq_filter, List.filterMap_filterMap]
    refine List.filterMap_congr fun p _ => ?_
    cases found : p.days? <;> simp [Option.guard, found]
  rw [around, around, same]

theorem start_le_finish (settled : (∀ p ∈ phases, ¬ p.Dated) ∨ ∃ p ∈ phases, p.Lasts)
    (today : Day) : (around phases today).start ≤ (around phases today).finish := by
  rcases settled with undated | ⟨p, member, days, found, lasts⟩
  · rw [around_of_undated undated]
    exact Day.le_trans (back_le today) (le_ahead today)
  · obtain ⟨start, finish⟩ := around_bounds member found today
    exact Day.le_trans start (Day.le_trans lasts finish)

/-- The window is the span of the phases that have both days, or else today, moved out by a month on
either side. It ends outside of all of them, where the calendar has such days, and otherwise at the
first start or the last end. -/
theorem padded_around (phases : List ResolvedPhase) (today : Day) :
    ((∀ p ∈ phases, ¬ p.Dated) →
      around phases today =
        ⟨(today.addMonths? (-1)).getD today, (today.addMonths? 1).getD today⟩) ∧
    ((∃ p ∈ phases, p.Dated) → ∃ least greatest,
      IsLeast (starts phases) least ∧ IsGreatest (finishes phases) greatest ∧
      around phases today =
        ⟨(least.addMonths? (-1)).getD least, (greatest.addMonths? 1).getD greatest⟩ ∧
      (least.addMonths? (-1) = none ↔ least.month = .ofYear Month.firstYear 1) ∧
      (greatest.addMonths? 1 = none ↔ greatest.month = .ofYear Month.lastYear 12) ∧
      ∀ p ∈ phases, ∀ start finish, p.days? = some (start, finish) →
        (if least.addMonths? (-1) = none then
            (around phases today).start = least ∧ least ≤ start
          else (around phases today).start < start) ∧
        if greatest.addMonths? 1 = none then
            (around phases today).finish = greatest ∧ finish ≤ greatest
          else finish < (around phases today).finish) ∧
    (∀ p ∈ phases, ∀ start finish, p.days? = some (start, finish) → start ≤ finish →
      (around phases today).contains start = true ∧
        (around phases today).contains finish = true) ∧
    ((∀ p ∈ phases, ¬ p.Dated) ∨ (∃ p ∈ phases, p.Lasts) →
      (around phases today).start ≤ (around phases today).finish) ∧
    around (phases.filter (·.days?.isSome)) today = around phases today := by
  refine ⟨fun undated => around_of_undated undated today, fun dated => ?_,
    fun p member start finish found lasts => contains_of_lasts member found lasts today,
    fun settled => start_le_finish settled today, around_filter phases today⟩
  obtain ⟨least, greatest, first, last, window⟩ := around_of_dated dated today
  refine ⟨least, greatest, first, last, window, ?_, ?_, fun p member start finish found => ?_⟩
  · obtain ⟨p, -, finish, found⟩ := first.1
    exact Day.addMonths?_back_eq_none_iff (ResolvedPhase.supported_of_days? found).1
  · obtain ⟨p, -, start, found⟩ := last.1
    exact Day.addMonths?_ahead_eq_none_iff (ResolvedPhase.supported_of_days? found).2
  · have lower : least ≤ start := first.2 ⟨p, member, finish, found⟩
    have upper : finish ≤ greatest := last.2 ⟨p, member, start, found⟩
    rw [window]
    exact ⟨back_lt_of_le lower, lt_ahead_of_le upper⟩

/-- A day that has no counterpart in the month before, a start that names no day, and an end in the
last month of the calendar. -/
def edges : List ResolvedPhase :=
  resolvedPhases
    [⟨"Web", [⟨"Design", some ⟨"2025-03-31"⟩, ⟨"2025-04"⟩, []⟩, ⟨"Build", some ⟨"soon"⟩, ⟨"2020-01"⟩, []⟩,
      ⟨"Support", some ⟨"2025-05"⟩, ⟨"+262142-12-01"⟩, []⟩]⟩]

theorem padded_edges :
    (∃ p ∈ edges, p.Dated) ∧ (∃ p ∈ edges, p.Lasts) ∧
      (∃ least greatest, IsLeast (starts edges) least ∧ IsGreatest (finishes edges) greatest ∧
        around edges (Month.ofYear 2026 1).first =
          ⟨(least.addMonths? (-1)).getD least, (greatest.addMonths? 1).getD greatest⟩) ∧
      (around edges (Month.ofYear 2026 1).first).start ≤
        (around edges (Month.ofYear 2026 1).first).finish ∧
      around [] (Month.ofYear 2026 1).first =
        ⟨(Month.ofYear 2025 12).first, (Month.ofYear 2026 2).first⟩ := by
  have lasting : ∃ p ∈ edges, p.Lasts :=
    ⟨edges.head (by decide), List.head_mem _,
      ((Month.ofYear 2025 3).last, (Month.ofYear 2025 4).last), by decide +kernel, by decide⟩
  have dated : ∃ p ∈ edges, p.Dated := by
    obtain ⟨p, member, lasts⟩ := lasting
    exact ⟨p, member, lasts.dated⟩
  obtain ⟨-, spanned, -, ordered, -⟩ := padded_around edges (Month.ofYear 2026 1).first
  obtain ⟨least, greatest, first, last, window, -⟩ := spanned dated
  exact ⟨dated, lasting, ⟨least, greatest, first, last, window⟩, ordered (.inr lasting),
    (padded_around [] (Month.ofYear 2026 1).first).1 (by simp)⟩

end Window

end Roadmap
