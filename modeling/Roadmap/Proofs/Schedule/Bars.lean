import Mathlib.Algebra.Order.Field.Rat
import Mathlib.Tactic.FieldSimp
import Mathlib.Tactic.Linarith
import Mathlib.Tactic.NormNum
import Mathlib.Tactic.Positivity
import Roadmap.Proofs.Calendar.Granularity
import Roadmap.Proofs.Schedule.Chaining
import Roadmap.Proofs.Schedule.Window

namespace Roadmap

open Calendar

instance : Measure ℚ where
  ofInt := Int.cast

theorem Calendar.Month.cast_length_pos (m : Month) : (0 : ℚ) < m.length :=
  Nat.cast_pos.2 m.length_pos

namespace Window

variable (w : Window)

/-- Where a day begins: after the months before its own and its share of this one. -/
def position (d : Day) : ℚ := w.monthIndex d + (d.number - 1 : Nat) / d.month.length

def close (d : Day) : ℚ := w.monthIndex d + d.number / d.month.length

theorem position_first (m : Month) : w.position m.first = m.count - w.start.month.count := by
  simp [position, monthIndex, Month.first]

theorem close_last (m : Month) : w.close m.last = m.count - w.start.month.count + 1 := by
  have positive := m.cast_length_pos
  simp [close, monthIndex, Month.last, positive.ne']

theorem position_next (d : Day) : w.position d.next = w.close d := by
  have positive := d.month.cast_length_pos
  unfold Day.next
  split
  · simp [position, close, monthIndex]
  · next ending =>
    have number : d.number = d.month.length := by
      have fits := d.number_le
      omega
    rw [position_first, close, number, div_self positive.ne']
    simp only [monthIndex, Month.next, Month.plus]
    push_cast
    ring

theorem position_add (d : Day) : w.position d + 1 / d.month.length = w.close d := by
  have positive := d.month.cast_length_pos
  rw [position, close, Nat.cast_sub d.number_pos]
  field_simp
  push_cast
  ring

theorem monthIndex_le_position (d : Day) : (w.monthIndex d : ℚ) ≤ w.position d := by
  have share : (0 : ℚ) ≤ (d.number - 1 : Nat) / d.month.length := by positivity
  rw [position]
  linarith

theorem position_lt_monthIndex_add_one (d : Day) : w.position d < w.monthIndex d + 1 := by
  have inside : d.number - 1 < d.month.length := by
    have positive := d.number_pos
    have fits := d.number_le
    omega
  have share : ((d.number - 1 : Nat) : ℚ) / d.month.length < 1 :=
    (div_lt_one d.month.cast_length_pos).2 (Nat.cast_lt.2 inside)
  rw [position]
  linarith

theorem position_lt_position {a b : Day} (less : a < b) : w.position a < w.position b := by
  rcases Day.lt_iff.1 less with earlier | ⟨same, before⟩
  -- A share is less than one, so it does not make up for an earlier month.
  · have months : (w.monthIndex a : ℚ) + 1 ≤ w.monthIndex b := by
      rw [monthIndex, monthIndex]
      exact_mod_cast (show a.month.count - w.start.month.count + 1 ≤
        b.month.count - w.start.month.count by omega)
    have left := w.position_lt_monthIndex_add_one a
    have right := w.monthIndex_le_position b
    linarith
  · have month : a.month = b.month := Month.eq_of_count same
    have positive := a.number_pos
    have numbers : a.number - 1 < b.number - 1 := by omega
    rw [position, position, monthIndex, monthIndex, month]
    have shares := div_lt_div_of_pos_right (Nat.cast_lt.2 numbers) b.month.cast_length_pos
    linarith

variable {w : Window}

theorem position_lt_iff {a b : Day} : w.position a < w.position b ↔ a < b := by
  refine ⟨fun less => ?_, w.position_lt_position⟩
  rcases Day.lt_trichotomy a b with before | rfl | after
  · exact before
  · exact absurd less (lt_irrefl _)
  · exact absurd less (w.position_lt_position after).not_gt

theorem position_inj {a b : Day} : w.position a = w.position b ↔ a = b := by
  refine ⟨fun same => ?_, congrArg w.position⟩
  rcases Day.lt_trichotomy a b with before | rfl | after
  · exact absurd same (w.position_lt_position before).ne
  · rfl
  · exact absurd same (w.position_lt_position after).ne'

theorem offset?_eq (t : DateToken) :
    (w.offset? t : Option ℚ) = (t.day? .start).map w.position := by
  unfold offset?
  refine Option.map_congr fun d read => ?_
  have length := Day.daysInMonth_eq (DateToken.supported_of_day? read)
  cases month : t.isMonth with
  | false =>
    change (w.monthIndex d : ℚ) + ((d.number - 1 : Nat) : ℤ) / (d.daysInMonth : ℤ) = _
    rw [length, position, Int.cast_natCast, Int.cast_natCast]
  | true =>
    change (w.monthIndex d : ℚ) = _
    simp [position, DateToken.number_eq_one month read]

def extent? (w : Window) (start finish : DateToken) : Option ℚ := do
  let first ← w.offset? start
  let last ← w.offset? (finish.normalize .finish)
  let day ← (finish.normalize .finish).day? .start
  return last - first + 1 / day.daysInMonth

theorem span?_eq_extent? (start finish : DateToken) :
    (w.span? start finish : Option ℚ) = (w.extent? start finish).map (max (1 / 2)) := by
  have half : ((1 : ℤ) : ℚ) / (2 : ℤ) = 1 / 2 := by norm_num
  unfold span? extent?
  cases (w.offset? start : Option ℚ) with
  | none => rfl
  | some first =>
    cases (w.offset? (finish.normalize .finish) : Option ℚ) with
    | none => rfl
    | some last =>
      cases (finish.normalize .finish).day? .start with
      | none => rfl
      | some day =>
        change some (max (last - first + (1 : ℤ) / (day.daysInMonth : ℤ)) ((1 : ℤ) / (2 : ℤ))) = _
        rw [half, max_comm, Int.cast_one, Int.cast_natCast]
        rfl

theorem extent?_eq {start finish : DateToken} :
    w.extent? start finish = (do
      return w.close (← finish.day? .finish) - w.position (← start.day? .start)) := by
  have last : (finish.normalize .finish).day? .start = finish.day? .finish := by
    rw [DateToken.day?, DateToken.normalize_normalize, DateToken.day?]
  unfold extent?
  rw [offset?_eq, offset?_eq, last]
  cases start.day? .start with
  | none => cases finish.day? .finish <;> rfl
  | some first =>
    cases read : finish.day? .finish with
    | none => rfl
    | some d =>
      have length := Day.daysInMonth_eq (DateToken.supported_of_day? read)
      have ends := w.position_add d
      change some (w.position d - w.position first + 1 / (d.daysInMonth : ℚ)) =
        some (w.close d - w.position first)
      rw [length, ← ends]
      ring_nf

theorem extent?_of_days {start finish : DateToken} {first last : Day}
    (starts : start.day? .start = some first) (ends : finish.day? .finish = some last) :
    w.extent? start finish = some (w.close last - w.position first) := by
  rw [extent?_eq, starts, ends]
  rfl

theorem isSome_span? {start finish : DateToken} :
    (w.span? start finish : Option ℚ).isSome = true ↔
      (start.day? .start).isSome = true ∧ (finish.day? .finish).isSome = true := by
  rw [span?_eq_extent?, Option.isSome_map, extent?_eq]
  cases start.day? .start <;> cases finish.day? .finish <;> simp

theorem offset?_next {t : DateToken} {last : Day} (ends : t.day? .finish = some last)
    (more : last ≠ Day.greatest) : w.offset? t.next = some (w.close last) := by
  rw [offset?_eq, DateToken.day?_next ends more, Option.map_some, position_next]

theorem span?_whole {start finish : DateToken} {a b : Month}
    (starts : start.day? .start = some a.first) (ends : finish.day? .finish = some b.last)
    (order : a.count ≤ b.count) :
    w.span? start finish = some (((b.count - a.count + 1 : ℤ)) : ℚ) := by
  have length : w.close b.last - w.position a.first = ((b.count - a.count + 1 : ℤ) : ℚ) := by
    rw [close_last, position_first]
    push_cast
    ring
  have long : (1 / 2 : ℚ) ≤ ((b.count - a.count + 1 : ℤ) : ℚ) := by
    have whole : (1 : ℚ) ≤ ((b.count - a.count + 1 : ℤ) : ℚ) := by
      exact_mod_cast (show 1 ≤ b.count - a.count + 1 by omega)
    linarith
  rw [span?_eq_extent?, extent?_of_days starts ends, Option.map_some, length, max_eq_right long]

theorem offset?_continued {projects : List Project} {today : Day} {i k : Nat}
    {before phase : Phase} {r r' : ResolvedPhase}
    (prior : (Schedule.ofProjects projects today).phaseAt? i k = some before)
    (written : (Schedule.ofProjects projects today).phaseAt? i (k + 1) = some phase)
    (chained : phase.isChained = true)
    (entry : (Schedule.ofProjects projects today).entryAt? i k = some r)
    (entry' : (Schedule.ofProjects projects today).entryAt? i (k + 1) = some r')
    {last : Day} (ends : r.finishDay? = some last) (more : last ≠ Day.greatest) :
    w.offset? r'.start = some (w.close last) := by
  obtain ⟨p, -, -, resolved⟩ := Schedule.entryAt?_of_phaseAt? prior
  cases Option.some.inj (entry.symm.trans resolved)
  have start := ((Schedule.chained_of_projects projects today).continued i k before phase r' prior
    written entry' (Option.isNone_iff_eq_none.1 chained)).2.1 last ends more
  rw [offset?_eq, ← ResolvedPhase.startDay?, start.1, Option.map_some, position_next]

structure Proportional (w : Window) : Prop where
  placed (t : DateToken) (bound : Bound) :
    (w.offset? t : Option ℚ).isSome = true ↔ (t.day? bound).isSome = true
  ordered {s t : DateToken} {a b : Day} {x y : ℚ} : s.day? .start = some a →
    t.day? .start = some b → w.offset? s = some x → w.offset? t = some y →
      (x < y ↔ a < b) ∧ (x = y ↔ a = b)
  measured (start finish : DateToken) (bound bound' : Bound) :
    (w.span? start finish : Option ℚ).isSome = true ↔
      (start.day? bound).isSome = true ∧ (finish.day? bound').isSome = true
  reaches {start finish : DateToken} {first last : Day} : start.day? .start = some first →
    finish.day? .finish = some last → last.next?.isSome = true →
      ∃ x y : ℚ, w.offset? start = some x ∧ w.offset? finish.next = some y ∧
        w.span? start finish = some (max (1 / 2) (y - x))
  floored (start finish : DateToken) :
    (w.span? start finish : Option ℚ) = (w.extent? start finish).map (max (1 / 2))
  continued {projects : List Project} {today : Day} {i k : Nat} {before phase : Phase}
    {r r' : ResolvedPhase} {first last : Day} :
    (Schedule.ofProjects projects today).phaseAt? i k = some before →
    (Schedule.ofProjects projects today).phaseAt? i (k + 1) = some phase →
    phase.isChained = true →
    (Schedule.ofProjects projects today).entryAt? i k = some r →
    (Schedule.ofProjects projects today).entryAt? i (k + 1) = some r' →
    r.startDay? = some first → r.finishDay? = some last → last.next?.isSome = true →
      ∃ x length : ℚ, w.offset? r.start = some x ∧ w.extent? r.start r.finish = some length ∧
        w.offset? r'.start = some (x + length)
  whole {start finish : DateToken} {a b : Month} : start.day? .start = some a.first →
    finish.day? .finish = some b.last → a.count ≤ b.count →
      w.span? start finish = some ((b.count - a.count + 1 : ℤ) : ℚ)

/-- Tokens lie in the order of their first days. A bar runs from its first day to the day after its
last, where one that continues it begins; only a bar that is too short to be seen reaches further. -/
theorem proportional (w : Window) : w.Proportional := by
  have each (t : DateToken) (bound : Bound) : (t.day? bound).isSome = (t.day? .start).isSome := by
    cases bound with
    | start => rfl
    | finish => exact (DateToken.isSome_day? t).symm
  have more {last : Day} (follows : last.next?.isSome = true) : last ≠ Day.greatest := by
    rintro rfl
    exact absurd follows (by decide)
  constructor
  case placed =>
    intro t bound
    rw [offset?_eq, Option.isSome_map, each t bound]
  case ordered =>
    intro s t a b x y first second left right
    rw [offset?_eq, first, Option.map_some, Option.some.injEq] at left
    rw [offset?_eq, second, Option.map_some, Option.some.injEq] at right
    rw [← left, ← right]
    exact ⟨position_lt_iff, position_inj⟩
  case measured =>
    intro start finish bound bound'
    rw [isSome_span?, each finish .finish, each start bound, each finish bound']
  case reaches =>
    intro start finish first last starts ends follows
    refine ⟨w.position first, w.close last, ?_, offset?_next ends (more follows), ?_⟩
    · rw [offset?_eq, starts, Option.map_some]
    · rw [span?_eq_extent?, extent?_of_days starts ends, Option.map_some]
  case floored => exact span?_eq_extent?
  case continued =>
    intro projects today i k before phase r r' first last prior written chained entry entry' starts
      ends follows
    refine ⟨w.position first, w.close last - w.position first, ?_, extent?_of_days starts ends, ?_⟩
    · rw [offset?_eq, ← ResolvedPhase.startDay?, starts, Option.map_some]
    · rw [offset?_continued prior written chained entry entry' ends (more follows),
        add_sub_cancel]
  case whole =>
    intro start finish a b starts ends order
    exact span?_whole starts ends order

/-- Two whole months across the turn of a year, and a bar that ends on a leap day. -/
theorem proportional_winter :
    (Window.mk (Month.ofYear 2025 11).first (Month.ofYear 2026 2).last).span? ⟨"2025-12"⟩
        ⟨"2026-01"⟩ = some (2 : ℚ) ∧
      ∃ x y : ℚ,
        (Window.mk (Month.ofYear 2024 1).last (Month.ofYear 2024 3).first).offset?
            ⟨"2024-2-10"⟩ = some x ∧
          (Window.mk (Month.ofYear 2024 1).last (Month.ofYear 2024 3).first).offset?
            (DateToken.mk "2024-02").next = some y ∧
          (Window.mk (Month.ofYear 2024 1).last (Month.ofYear 2024 3).first).span?
            ⟨"2024-2-10"⟩ ⟨"2024-02"⟩ = some (max (1 / 2) (y - x)) := by
  have december : (⟨"2025-12"⟩ : DateToken).day? .start = some (Month.ofYear 2025 12).first := by
    decide +kernel
  have january : (⟨"2026-01"⟩ : DateToken).day? .finish = some (Month.ofYear 2026 1).last := by
    decide +kernel
  have tenth : (⟨"2024-2-10"⟩ : DateToken).day? .start = Day.of? 2024 2 10 := by decide +kernel
  have leap : (⟨"2024-02"⟩ : DateToken).day? .finish = some (Month.ofYear 2024 2).last := by
    decide +kernel
  refine ⟨?_, (proportional _).reaches tenth leap (by decide)⟩
  rw [(proportional _).whole december january (by decide)]
  norm_num [Month.ofYear]

end Window

end Roadmap
