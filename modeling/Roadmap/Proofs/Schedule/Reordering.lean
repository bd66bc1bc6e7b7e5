import Roadmap.Findings
import Roadmap.Proofs.Schedule.Persons
import Roadmap.Proofs.Schedule.Window

namespace Roadmap

open Calendar

def ResolvedPhase.unnumbered (r : ResolvedPhase) : ResolvedPhase := { r with projectIndex := 0 }

def PersonRow.unnumbered (r : PersonRow) : PersonRow := { r with projectIndex := 0 }

theorem map_unnumbered_resolvePhases (project : String) (index : Nat) (before : Option DateToken)
    (phases : List Phase) :
    (resolvePhases project index before phases).map ResolvedPhase.unnumbered =
      resolvePhases project 0 before phases := by
  induction phases generalizing before with
  | nil => rfl
  | cons p phases ih =>
    rw [resolvePhases, List.map_cons, ih]
    rfl

theorem map_unnumbered_resolvedPhases (projects : List Project) :
    (resolvedPhases projects).map ResolvedPhase.unnumbered =
      projects.flatMap fun p => resolvePhases p.name 0 none p.phases := by
  conv_rhs => rw [← List.zipIdx_map_fst 0 projects, List.flatMap_map]
  rw [resolvedPhases, List.map_flatMap]
  exact List.flatMap_congr fun q _ => map_unnumbered_resolvePhases q.1.name q.2 none q.1.phases

theorem map_unnumbered_personRows (phases : List ResolvedPhase) :
    (personRows phases).map PersonRow.unnumbered =
      (phases.map ResolvedPhase.unnumbered).flatMap ResolvedPhase.rows := by
  rw [personRows, List.map_flatMap, List.flatMap_map]
  refine List.flatMap_congr fun p _ => ?_
  rw [ResolvedPhase.rows, List.map_map]
  rfl

section

variable {projects projects' : List Project} (same : projects.Perm projects')

include same

theorem perm_resolvedPhases :
    ((resolvedPhases projects).map ResolvedPhase.unnumbered).Perm
      ((resolvedPhases projects').map ResolvedPhase.unnumbered) := by
  rw [map_unnumbered_resolvedPhases, map_unnumbered_resolvedPhases]
  exact same.flatMap_right _

theorem perm_personRows :
    ((personRows (resolvedPhases projects)).map PersonRow.unnumbered).Perm
      ((personRows (resolvedPhases projects')).map PersonRow.unnumbered) := by
  rw [map_unnumbered_personRows, map_unnumbered_personRows]
  exact (perm_resolvedPhases same).flatMap_right _

theorem personNames_eq_of_perm : personNames projects = personNames projects' := by
  apply eq_of_sorted (sorted_personNames projects) (sorted_personNames projects')
  intro name
  simp only [mem_personNames, same.mem_iff]

end

namespace Window

theorem hull?_le {days days' : List (Day × Day)} {hull hull' : Day × Day}
    (part : ∀ p ∈ days', p ∈ days) (found : hull? days = some hull)
    (found' : hull? days' = some hull') : hull.1 ≤ hull'.1 ∧ hull'.2 ≤ hull.2 := by
  obtain ⟨around, -, -⟩ := hull?_bounds found
  obtain ⟨-, ⟨p, among, least⟩, ⟨q, among', greatest⟩⟩ := hull?_bounds found'
  rw [least, greatest]
  exact ⟨(around p (part p among)).1, (around q (part q among')).2⟩

theorem hull?_eq_of_perm {days days' : List (Day × Day)} (same : days.Perm days') :
    hull? days = hull? days' := by
  cases found : hull? days with
  | none =>
    rw [hull?_eq_none_iff.1 found] at same
    rw [same.nil_eq.symm]
    rfl
  | some hull =>
    cases found' : hull? days' with
    | none =>
      rw [hull?_eq_none_iff.1 found'] at same
      rw [same.eq_nil] at found
      cases found
    | some hull' =>
      have wider := hull?_le (fun p => same.mem_iff.2) found found'
      have narrower := hull?_le (fun p => same.mem_iff.1) found' found
      exact congrArg some (Prod.ext (Day.le_antisymm wider.1 narrower.1)
        (Day.le_antisymm narrower.2 wider.2))

theorem around_eq_of_perm {phases phases' : List ResolvedPhase}
    (same : (phases.map ResolvedPhase.unnumbered).Perm (phases'.map ResolvedPhase.unnumbered))
    (today : Day) : around phases today = around phases' today := by
  -- The number of the project has no part in the days of a phase.
  have dated := same.filterMap ResolvedPhase.days?
  rw [List.filterMap_map, List.filterMap_map] at dated
  have hull : hull? (phases.filterMap ResolvedPhase.days?) =
      hull? (phases'.filterMap ResolvedPhase.days?) := hull?_eq_of_perm dated
  rw [around, around, hull]

end Window

namespace Finding

theorem ofProjects_congr {before before' : List String}
    (same : ∀ name, name ∈ before ↔ name ∈ before') (projects : List Project) :
    ofProjects before projects = ofProjects before' projects := by
  induction projects generalizing before before' with
  | nil => rfl
  | cons p projects ih =>
    have name : ofName p.name before = ofName p.name before' := by
      simp only [ofName, same]
    have members : ∀ name, name ∈ p.name :: before ↔ name ∈ p.name :: before' := by
      intro name
      rw [List.mem_cons, List.mem_cons, same]
    rw [ofProjects, ofProjects, ofProject, ofProject, name, ih members]

/-- Of two equal names one is found, whichever comes first. -/
theorem perm_ofName (first second : String) (before : List String) :
    (ofName first before ++ ofName second (first :: before)).Perm
      (ofName second before ++ ofName first (second :: before)) := by
  by_cases same : first = second
  · rw [same]
  · have other : ∀ {name last : String}, name ≠ last →
        ofName name (last :: before) = ofName name before := by
      intro name last differ
      simp [ofName, differ]
    rw [other same, other (Ne.symm same)]
    exact List.perm_append_comm

theorem perm_ofProject (p q : Project) (before : List String) :
    (ofProject p before ++ ofProject q (p.name :: before)).Perm
      (ofProject q before ++ ofProject p (q.name :: before)) := by
  rw [List.perm_iff_count]
  intro f
  have names := (perm_ofName p.name q.name before).count_eq f
  simp only [ofProject, List.count_append] at names ⊢
  omega

theorem perm_ofProjects {projects projects' : List Project} (same : projects.Perm projects')
    (before : List String) : (ofProjects before projects).Perm (ofProjects before projects') := by
  induction same generalizing before with
  | nil => exact .nil
  | cons p _ ih => exact (ih (p.name :: before)).append_left _
  | swap p q rest =>
    have names : ∀ name, name ∈ p.name :: q.name :: before ↔ name ∈ q.name :: p.name :: before := by
      simp [or_left_comm]
    rw [ofProjects, ofProjects, ofProjects, ofProjects, ofProjects_congr names, ← List.append_assoc,
      ← List.append_assoc]
    exact (perm_ofProject q p before).append_right _
  | trans _ _ ih ih' => exact (ih before).trans (ih' before)

end Finding

theorem perm_findings {projects projects' : List Project} (same : projects.Perm projects') :
    (findings projects).Perm (findings projects') := by
  have resolved := (perm_resolvedPhases same).flatMap_right Finding.ofResolved
  rw [List.flatMap_map, List.flatMap_map] at resolved
  exact (Finding.perm_ofProjects same []).append resolved

namespace Schedule

/-- Two schedules show the same, but for the order of the projects and for their numbers. -/
structure Rearranges (s s' : Schedule) : Prop where
  projects : s.projects.Perm s'.projects
  persons : s.persons = s'.persons
  window : s.window = s'.window
  months : s.window.slots = s'.window.slots
  phases : (s.phases.map ResolvedPhase.unnumbered).Perm (s'.phases.map ResolvedPhase.unnumbered)
  rows : (s.rows.map PersonRow.unnumbered).Perm (s'.rows.map PersonRow.unnumbered)

theorem rearranges_ofProjects {projects projects' : List Project} (same : projects.Perm projects')
    (today : Day) :
    (ofProjects projects today).Rearranges (ofProjects projects' today) ∧
      (findings projects).Perm (findings projects') := by
  have window : (ofProjects projects today).window = (ofProjects projects' today).window :=
    Window.around_eq_of_perm (perm_resolvedPhases same) today
  refine ⟨?_, perm_findings same⟩
  constructor
  case projects => exact same
  case persons => exact personNames_eq_of_perm same
  case window => exact window
  case months => rw [window]
  case phases => exact perm_resolvedPhases same
  case rows => exact perm_personRows same

/-- Two projects of one name, the first of which begins with a phase that continues nothing and ends
with one that ends before it starts. -/
def twins : List Project :=
  [⟨"Web", [⟨"Design", none, ⟨"2025-02"⟩, [⟨"Bo", 1⟩]⟩, ⟨"Build", none, ⟨"2025-01"⟩, []⟩]⟩,
    ⟨"Web", [⟨"Ship", some ⟨"2025-04"⟩, ⟨"2025-13"⟩, [⟨"Ann", 0.5⟩]⟩]⟩]

theorem rearranges_twins :
    twins.Perm twins.reverse ∧
      (ofProjects twins (Month.ofYear 2026 1).first).Rearranges
        (ofProjects twins.reverse (Month.ofYear 2026 1).first) ∧
      (findings twins).Perm (findings twins.reverse) :=
  have same : twins.Perm twins.reverse := (List.reverse_perm twins).symm
  ⟨same, rearranges_ofProjects same _⟩

end Schedule

end Roadmap
