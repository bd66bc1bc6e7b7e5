import Roadmap.Findings
import Roadmap.Proofs.Schedule.Chaining
import Roadmap.Proofs.Schedule.Window

namespace Roadmap

open Calendar

theorem DateToken.isResolvable_iff {t : DateToken} (bound : Bound) :
    t.isResolvable = true ↔ (t.day? bound).isSome = true := by
  rw [isResolvable, Bool.and_eq_true, isSome_day?, and_self]
  cases bound with
  | start => rw [isSome_day?]
  | finish => rfl

def ResolvedPhase.Lasts (p : ResolvedPhase) : Prop := ∃ days, p.days? = some days ∧ days.1 ≤ days.2

def ResolvedPhase.Dated (p : ResolvedPhase) : Prop := ∃ days, p.days? = some days

theorem ResolvedPhase.dated_iff {p : ResolvedPhase} :
    p.Dated ↔ p.startDay?.isSome = true ∧ p.finishDay?.isSome = true := by
  cases start : p.startDay? <;> cases finish : p.finishDay? <;> simp [Dated, days?, start, finish]

namespace Phase

def Written (p : Phase) : Prop := ∀ t ∈ p.tokens, t.isResolvable = true

theorem dated_resolve_iff {p : Phase} {before : Option DateToken}
    (anchored : p.isChained = true → ∃ t ∈ before, t.isResolvable = true) (project : String)
    (index : Nat) : (p.resolve project index before).Dated ↔ p.Written := by
  rw [ResolvedPhase.dated_iff]
  have finish : (p.resolve project index before).finishDay?.isSome = true ↔
      p.finish.isResolvable = true := (DateToken.isResolvable_iff .finish).symm
  rw [finish, Written, tokens]
  cases written : p.start with
  | some token =>
    have same : (p.resolve project index before).start = token := resolvedStart_own written before
    rw [ResolvedPhase.startDay?, same, ← DateToken.isResolvable_iff .start]
    simp
  | none =>
    obtain ⟨t, previous, resolvable⟩ := anchored (by rw [isChained, written]; rfl)
    have next : (p.resolve project index before).start = t.next := by
      rw [Option.mem_def.1 previous]
      exact resolvedStart_chained written t
    have named := DateToken.isSome_day?_next ((DateToken.isResolvable_iff .finish).1 resolvable) .start
    rw [ResolvedPhase.startDay?, next, named]
    simp

end Phase

theorem dated_resolvePhases_iff {phases : List Phase} {before : Option DateToken}
    (previous : ∀ t ∈ before, t.isResolvable = true)
    (anchored : before = none → ∀ first ∈ phases.head?, first.isChained = false)
    (project : String) (index : Nat) :
    (∀ r ∈ resolvePhases project index before phases, r.Dated) ↔ ∀ p ∈ phases, p.Written := by
  -- What carries over from phase to phase: the end before, if there is one, names a day.
  induction phases generalizing before with
  | nil => simp [resolvePhases]
  | cons p phases ih =>
    have first : p.isChained = true → ∃ t ∈ before, t.isResolvable = true := by
      intro chained
      cases before with
      | none =>
        have other := anchored rfl p rfl
        simp [chained] at other
      | some t => exact ⟨t, rfl, previous t rfl⟩
    rw [resolvePhases, List.forall_mem_cons, List.forall_mem_cons, Phase.dated_resolve_iff first]
    refine and_congr_right fun written => ih ?_ (by simp)
    intro t last
    cases last
    exact written p.finish (by simp [Phase.tokens])

namespace Finding

theorem ofName_eq_nil_iff {name : String} {before : List String} :
    ofName name before = [] ↔ name ≠ "" ∧ name ∉ before := by
  unfold ofName
  split
  · next empty => simp [empty]
  · next named => split <;> simp_all

theorem ofFirstPhase_eq_nil_iff {p : Project} :
    ofFirstPhase p = [] ↔ ∀ first ∈ p.phases.head?, first.isChained = false := by
  unfold ofFirstPhase
  split
  · next none => simp [none]
  · next first rest some => simp [some]

theorem ofTokens_eq_nil_iff {project : String} {p : Phase} :
    ofTokens project p = [] ↔ p.Written := by
  simp [ofTokens, Phase.Written]

theorem ofProject_eq_nil_iff {p : Project} {before : List String} :
    ofProject p before = [] ↔
      (p.name ≠ "" ∧ p.name ∉ before) ∧ (∀ first ∈ p.phases.head?, first.isChained = false) ∧
        ∀ phase ∈ p.phases, phase.Written := by
  simp only [ofProject, List.append_eq_nil_iff, List.flatMap_eq_nil_iff, ofName_eq_nil_iff,
    ofFirstPhase_eq_nil_iff, ofTokens_eq_nil_iff, and_assoc]

theorem ofProjects_eq_nil_iff {projects : List Project} {before : List String} :
    ofProjects before projects = [] ↔
      ((∀ p ∈ projects, p.name ≠ "" ∧ p.name ∉ before) ∧ (projects.map Project.name).Nodup) ∧
        ∀ p ∈ projects, (∀ first ∈ p.phases.head?, first.isChained = false) ∧
          ∀ phase ∈ p.phases, phase.Written := by
  induction projects generalizing before with
  | nil => simp [ofProjects]
  | cons p projects ih =>
    rw [ofProjects, List.append_eq_nil_iff, ofProject_eq_nil_iff, ih]
    simp only [List.map_cons, List.nodup_cons, List.mem_cons, List.mem_map, not_or, not_exists,
      not_and]
    grind

theorem ofResolved_eq_nil_iff {p : ResolvedPhase} (dated : p.Dated) :
    ofResolved p = [] ↔ p.Lasts := by
  obtain ⟨days, found⟩ := dated
  obtain ⟨start, finish⟩ := ResolvedPhase.days?_eq_some_iff.1 found
  unfold ofResolved
  simp [ResolvedPhase.Lasts, start, finish, found, ← Day.not_le]

end Finding

theorem dated_resolvedPhases_iff {projects : List Project}
    (anchored : ∀ p ∈ projects, ∀ first ∈ p.phases.head?, first.isChained = false) :
    (∀ r ∈ resolvedPhases projects, r.Dated) ↔
      ∀ p ∈ projects, ∀ phase ∈ p.phases, phase.Written := by
  have numbered : ∀ holds : Project → Prop,
      (∀ p ∈ projects, holds p) ↔ ∀ q ∈ projects.zipIdx, holds q.1 := by
    intro holds
    conv_lhs => rw [← List.zipIdx_map_fst 0 projects, List.forall_mem_map]
  rw [numbered, resolvedPhases, List.forall_mem_flatMap]
  refine forall₂_congr fun q member => ?_
  exact dated_resolvePhases_iff (by simp) (fun _ => (numbered _).1 anchored q member) _ _

/-- The projects have names that tell them apart, none begins with a phase that continues another,
and every phase lasts from one day to a later or the same one. -/
structure Coherent (projects : List Project) : Prop where
  named : ∀ p ∈ projects, p.name ≠ ""
  distinct : (projects.map Project.name).Nodup
  anchored : ∀ p ∈ projects, ∀ first ∈ p.phases.head?, first.isChained = false
  lasting : ∀ p ∈ resolvedPhases projects, p.Lasts

theorem ResolvedPhase.Lasts.dated {p : ResolvedPhase} (lasts : p.Lasts) : p.Dated := by
  obtain ⟨days, found, -⟩ := lasts
  exact ⟨days, found⟩

theorem coherent_iff_findings_eq_nil {projects : List Project} :
    Coherent projects ↔ findings projects = [] := by
  rw [findings, List.append_eq_nil_iff, Finding.ofProjects_eq_nil_iff, List.flatMap_eq_nil_iff]
  constructor
  · intro ⟨named, distinct, anchored, lasting⟩
    have dated : ∀ p ∈ resolvedPhases projects, p.Dated := fun p member => (lasting p member).dated
    have written := (dated_resolvedPhases_iff anchored).1 dated
    exact ⟨⟨⟨fun p member => ⟨named p member, by simp⟩, distinct⟩,
        fun p member => ⟨anchored p member, written p member⟩⟩,
      fun p member => (Finding.ofResolved_eq_nil_iff (dated p member)).2 (lasting p member)⟩
  · rintro ⟨⟨⟨names, distinct⟩, phases⟩, resolved⟩
    have anchored := fun p member => (phases p member).1
    have dated := (dated_resolvedPhases_iff anchored).2 fun p member => (phases p member).2
    exact ⟨fun p member => (names p member).1, distinct, anchored,
      fun p member => (Finding.ofResolved_eq_nil_iff (dated p member)).1 (resolved p member)⟩

/-- Every phase lies in the window from its first to its last day, and every row shares a day with a
month of the axis. -/
structure Window.Shows (w : Window) (phases : List ResolvedPhase) : Prop where
  days : ∀ p ∈ phases, ∃ days, p.days? = some days ∧
    w.contains days.1 = true ∧ w.contains days.2 = true
  rows : ∀ row ∈ personRows phases, ∃ slot ∈ w.slots, ∃ first last,
    slot.bounds? = some (first, last) ∧ row.overlaps first last = true

theorem Window.exists_slot_overlaps {w : Window} {row : PersonRow} {days : Day × Day}
    (dated : row.days? = some days) (lasts : days.1 ≤ days.2) (start : w.start ≤ days.1)
    (finish : days.2 ≤ w.finish) :
    ∃ slot ∈ w.slots, ∃ first last,
      slot.bounds? = some (first, last) ∧ row.overlaps first last = true := by
  -- The month that the row starts in will do.
  obtain ⟨slot, member, month⟩ := Window.exists_slot_iff.2
    ⟨Day.month_le_of_le start, Day.month_le_of_le (Day.le_trans lasts finish)⟩
  have supported : days.1.Supported :=
    DateToken.supported_of_day? (PersonRow.days?_eq_some_iff.1 dated).1
  have bounds := Window.bounds?_of_mem member (month ▸ supported)
  refine ⟨slot, member, _, _, bounds, ?_⟩
  rw [PersonRow.overlaps_month, month, PersonRow.touches_iff]
  exact ⟨days, dated, Int.le_refl _, Day.month_le_of_le lasts⟩

theorem Window.contains_of_lasts {phases : List ResolvedPhase} {p : ResolvedPhase}
    (member : p ∈ phases) {days : Day × Day} (dated : p.days? = some days)
    (lasts : days.1 ≤ days.2) (today : Day) :
    (Window.around phases today).contains days.1 = true ∧
      (Window.around phases today).contains days.2 = true := by
  obtain ⟨start, finish⟩ := Window.around_bounds member dated today
  simp only [Window.contains, Bool.and_eq_true, decide_eq_true_eq]
  exact ⟨⟨start, Day.le_trans lasts finish⟩, Day.le_trans start lasts, finish⟩

theorem Window.shows_around {phases : List ResolvedPhase} (lasting : ∀ p ∈ phases, p.Lasts)
    (today : Day) : (Window.around phases today).Shows phases := by
  constructor
  case days =>
    intro p member
    obtain ⟨days, dated, lasts⟩ := lasting p member
    exact ⟨days, dated, Window.contains_of_lasts member dated lasts today⟩
  case rows =>
    intro row member
    obtain ⟨p, among, same⟩ := exists_phase_of_mem_personRows member
    obtain ⟨days, dated, lasts⟩ := lasting p among
    obtain ⟨start, finish⟩ := Window.around_bounds among dated today
    exact Window.exists_slot_overlaps (same.trans dated) lasts start finish

/-- There is nothing to find in exactly the coherent projects, and these are shown whole. -/
theorem findings_eq_nil_iff_and_shows (projects : List Project) :
    (findings projects = [] ↔ Coherent projects) ∧
      (findings projects = [] → ∀ today : Day,
        (Window.around (resolvedPhases projects) today).Shows (resolvedPhases projects)) :=
  ⟨coherent_iff_findings_eq_nil.symm,
    fun none => Window.shows_around (coherent_iff_findings_eq_nil.2 none).lasting⟩

/-- A phase that continues another up to the last day of the calendar, and one that starts on its
end. -/
def tidy : List Project :=
  [⟨"Web", [⟨"Design", some ⟨"2025-01"⟩, ⟨"2025-02-28"⟩, [⟨"Ann", 0.5⟩]⟩,
    ⟨"Build", none, ⟨"+262142-12-31"⟩, [⟨"Ann", 1⟩]⟩,
    ⟨"Ship", none, ⟨"+262142-12-31"⟩, []⟩]⟩]

theorem shows_tidy :
    findings tidy = [] ∧
      (Window.around (resolvedPhases tidy) (Month.ofYear 2026 1).first).Shows
        (resolvedPhases tidy) :=
  have none : findings tidy = [] := by decide +kernel
  ⟨none, (findings_eq_nil_iff_and_shows tidy).2 none _⟩

end Roadmap
