import Roadmap.Proofs.Calendar.Order
import Roadmap.Proofs.Calendar.Token
import Roadmap.Schedule.Basic

namespace Roadmap

open Calendar

namespace Phase

theorem resolvedStart_own {p : Phase} {t : DateToken} (own : p.start = some t)
    (before : Option DateToken) : p.resolvedStart before = t := by
  unfold resolvedStart
  rw [own]

theorem resolvedStart_first {p : Phase} (chained : p.start = none) :
    p.resolvedStart none = p.finish := by
  unfold resolvedStart
  rw [chained]

theorem resolvedStart_chained {p : Phase} (chained : p.start = none) (t : DateToken) :
    p.resolvedStart (some t) = t.next := by
  unfold resolvedStart
  rw [chained]

theorem resolve_own {p : Phase} {t : DateToken} (own : p.start = some t) (project : String)
    (index : Nat) (before : Option DateToken) :
    (p.resolve project index before).start = t ∧
      (p.resolve project index before).isContinuation = false := by
  refine ⟨resolvedStart_own own before, ?_⟩
  simp [resolve, isChained, own]

theorem resolve_first {p : Phase} (chained : p.start = none) (project : String) (index : Nat) :
    (p.resolve project index none).start = p.finish ∧
      (p.resolve project index none).isContinuation = false := by
  refine ⟨resolvedStart_first chained, ?_⟩
  simp [resolve]

theorem resolve_continued {p : Phase} (chained : p.start = none) (project : String) (index : Nat)
    (t : DateToken) :
    (p.resolve project index (some t)).start = t.next ∧
      (p.resolve project index (some t)).isContinuation = true := by
  refine ⟨resolvedStart_chained chained t, ?_⟩
  simp [resolve, isChained, chained]

theorem resolve_of_not_chained {p : Phase} (anchored : p.isChained = false) (project : String)
    (index : Nat) (before before' : Option DateToken) :
    p.resolve project index before = p.resolve project index before' := by
  obtain ⟨t, own⟩ := Option.isSome_iff_exists.1 (Option.isNone_eq_false_iff.1 anchored)
  simp [resolve, resolvedStart_own own, anchored]

end Phase

/-- The end of the phase before the one at a place; `before` is the end before the first. -/
def endBefore (before : Option DateToken) (phases : List Phase) : Nat → Option DateToken
  | 0 => before
  | k + 1 => phases[k]?.map Phase.finish

theorem getElem?_resolvePhases (project : String) (index : Nat) (before : Option DateToken)
    (phases : List Phase) (k : Nat) :
    (resolvePhases project index before phases)[k]? =
      phases[k]?.map fun p => p.resolve project index (endBefore before phases k) := by
  induction phases generalizing before k with
  | nil => rfl
  | cons p phases ih =>
    cases k with
    | zero => rfl
    | succ k =>
      rw [resolvePhases, List.getElem?_cons_succ, List.getElem?_cons_succ, ih]
      cases k with
      | zero => rfl
      | succ k => rfl

theorem length_resolvePhases (project : String) (index : Nat) (before : Option DateToken)
    (phases : List Phase) :
    (resolvePhases project index before phases).length = phases.length := by
  induction phases generalizing before with
  | nil => rfl
  | cons p phases ih => rw [resolvePhases, List.length_cons, ih, List.length_cons]

theorem projectIndex_of_mem_resolvePhases {project : String} {index : Nat}
    {before : Option DateToken} {phases : List Phase} {r : ResolvedPhase}
    (member : r ∈ resolvePhases project index before phases) : r.projectIndex = index := by
  induction phases generalizing before with
  | nil => cases member
  | cons p phases ih =>
    rcases List.mem_cons.1 member with rfl | later
    · rfl
    · exact ih later

theorem filter_flatMap_zipIdx {α β : Type} {part : α × Nat → List β} {number : β → Nat}
    (numbered : ∀ x, ∀ b ∈ part x, number b = x.2) (l : List α) (start i : Nat) :
    ((l.zipIdx start).flatMap part).filter (number · = i) =
      if start ≤ i then (l[i - start]?.map fun a => part (a, i)).getD [] else [] := by
  induction l generalizing start with
  | nil => simp
  | cons a l ih =>
    have other (apart : start ≠ i) : (part (a, start)).filter (number · = i) = [] :=
      List.filter_eq_nil_iff.2 fun b member => by simpa [numbered _ b member] using apart
    rw [List.zipIdx_cons, List.flatMap_cons, List.filter_append, ih]
    rcases Nat.lt_trichotomy start i with less | rfl | more
    · have later : i - start = i - (start + 1) + 1 := by omega
      rw [other (by omega), if_pos (by omega), if_pos (by omega), later, List.getElem?_cons_succ,
        List.nil_append]
    · have own : (part (a, start)).filter (number · = start) = part (a, start) :=
        List.filter_eq_self.2 fun b member => by simp [numbered _ b member]
      simp [own]
    · rw [other (by omega), if_neg (by omega), if_neg (by omega), List.nil_append]

theorem filter_zipIdx (projects : List Project) (start i : Nat) :
    ((projects.zipIdx start).flatMap fun (project, index) =>
        resolvePhases project.name index none project.phases).filter (·.projectIndex = i) =
      if start ≤ i then
        (projects[i - start]?.map fun p => resolvePhases p.name i none p.phases).getD []
      else [] :=
  filter_flatMap_zipIdx (fun _ _ member => projectIndex_of_mem_resolvePhases member) projects start i

def ResolvedPhase.under (r : ResolvedPhase) (project : String) (index : Nat) : ResolvedPhase :=
  { r with project := project, projectIndex := index }

def editPhase (projects : List Project) (i k : Nat) (change : Phase → Phase) : List Project :=
  projects.modify i fun p => { p with phases := p.phases.modify k change }

theorem endBefore_modify (before : Option DateToken) (phases : List Phase) {k l : Nat}
    (other : l ≠ k + 1) (change : Phase → Phase) :
    endBefore before (phases.modify k change) l = endBefore before phases l := by
  cases l with
  | zero => rfl
  | succ l =>
    have elsewhere : k ≠ l := by omega
    rw [endBefore, endBefore, List.getElem?_modify_ne _ _ elsewhere]

namespace Schedule

def phaseAt? (s : Schedule) (i k : Nat) : Option Phase := s.projects[i]?.bind (·.phases[k]?)

def entryAt? (s : Schedule) (i k : Nat) : Option ResolvedPhase := (s.phasesOf i)[k]?

/-- Every phase has one entry, in its place. It starts where it says, or on the day after the phase
before it in the project; only one that continues nothing starts where it ends. -/
structure Chained (s : Schedule) : Prop where
  order : s.phases = (List.range s.projects.length).flatMap s.phasesOf
  aligned : ∀ i p, s.projects[i]? = some p → (s.phasesOf i).length = p.phases.length
  kept : ∀ i k p phase, s.projects[i]? = some p → p.phases[k]? = some phase →
    ∃ r, s.entryAt? i k = some r ∧ r.project = p.name ∧ r.projectIndex = i ∧
      r.name = phase.name ∧ r.finish = phase.finish ∧ r.shares = phase.shares
  own : ∀ i k phase r t, s.phaseAt? i k = some phase → s.entryAt? i k = some r →
    phase.start = some t → r.start = t ∧ r.isContinuation = false
  first : ∀ i phase r, s.phaseAt? i 0 = some phase → s.entryAt? i 0 = some r →
    phase.start = none → r.start = phase.finish ∧ r.isContinuation = false
  continued : ∀ i k before phase r, s.phaseAt? i k = some before →
    s.phaseAt? i (k + 1) = some phase → s.entryAt? i (k + 1) = some r → phase.start = none →
    r.isContinuation = true ∧
      (∀ d, before.finish.day? .finish = some d → d ≠ Day.greatest →
        r.startDay? = some d.next ∧ d ⋖ d.next) ∧
      (before.finish.day? .finish = none → r.startDay? = none)

/-- What an edit of phase `k` in project `i` reaches: the phase that continues it, if its end is
another one now. -/
def Reaches (s : Schedule) (i k : Nat) (change : Phase → Phase) (j l : Nat) : Prop :=
  j = i ∧ l = k + 1 ∧ ∃ old next, s.phaseAt? i k = some old ∧ s.phaseAt? i (k + 1) = some next ∧
    next.isChained = true ∧ (change old).finish ≠ old.finish

variable {projects : List Project} {today : Day}

theorem phasesOf_ofProjects (i : Nat) :
    (ofProjects projects today).phasesOf i =
      (projects[i]?.map fun p => resolvePhases p.name i none p.phases).getD [] := by
  have found := filter_zipIdx projects 0 i
  rw [if_pos (Nat.zero_le i), Nat.sub_zero] at found
  exact found

theorem entryAt?_ofProjects (i k : Nat) :
    (ofProjects projects today).entryAt? i k =
      projects[i]?.bind fun p =>
        p.phases[k]?.map fun phase => phase.resolve p.name i (endBefore none p.phases k) := by
  rw [entryAt?, phasesOf_ofProjects]
  cases projects[i]? with
  | none => rfl
  | some p => exact getElem?_resolvePhases p.name i none p.phases k

theorem entryAt?_of_phaseAt? {i k : Nat} {phase : Phase}
    (written : (ofProjects projects today).phaseAt? i k = some phase) :
    ∃ p, projects[i]? = some p ∧ p.phases[k]? = some phase ∧
      (ofProjects projects today).entryAt? i k =
        some (phase.resolve p.name i (endBefore none p.phases k)) := by
  obtain ⟨p, project, own⟩ := Option.bind_eq_some_iff.1 written
  refine ⟨p, project, own, ?_⟩
  have project' : projects[i]? = some p := project
  rw [entryAt?_ofProjects, project', Option.bind_some, own, Option.map_some]

theorem flatMap_phasesOf :
    (List.range projects.length).flatMap (ofProjects projects today).phasesOf =
      resolvedPhases projects := by
  rw [resolvedPhases, List.flatMap_def, List.flatMap_def]
  congr 1
  apply List.ext_getElem?
  intro i
  by_cases inside : i < projects.length
  · simp [inside, phasesOf_ofProjects]
  · simp [inside]

theorem chained_of_projects (projects : List Project) (today : Day) :
    (ofProjects projects today).Chained := by
  constructor
  case order => exact flatMap_phasesOf.symm
  case aligned =>
    intro i p project
    have project' : projects[i]? = some p := project
    rw [phasesOf_ofProjects, project', Option.map_some, Option.getD_some, length_resolvePhases]
  case kept =>
    intro i k p phase project own
    have written : (ofProjects projects today).phaseAt? i k = some phase := by
      rw [phaseAt?, project, Option.bind_some, own]
    obtain ⟨q, project', -, entry⟩ := entryAt?_of_phaseAt? written
    have same : p = q := Option.some_inj.1 (project.symm.trans project')
    exact ⟨_, entry, by rw [same]; rfl, rfl, rfl, rfl, rfl⟩
  case own =>
    intro i k phase r t written entry own
    obtain ⟨p, -, -, entry'⟩ := entryAt?_of_phaseAt? written
    cases Option.some_inj.1 (entry.symm.trans entry')
    exact Phase.resolve_own own _ _ _
  case first =>
    intro i phase r written entry chained
    obtain ⟨p, -, -, entry'⟩ := entryAt?_of_phaseAt? written
    cases Option.some_inj.1 (entry.symm.trans entry')
    exact Phase.resolve_first chained _ _
  case continued =>
    intro i k before phase r prior written entry chained
    obtain ⟨p, project, -, entry'⟩ := entryAt?_of_phaseAt? written
    have previous : endBefore none p.phases (k + 1) = some before.finish := by
      have project' : (ofProjects projects today).projects[i]? = some p := project
      rw [phaseAt?, project', Option.bind_some] at prior
      rw [endBefore, prior, Option.map_some]
    rw [previous] at entry'
    cases Option.some_inj.1 (entry.symm.trans entry')
    obtain ⟨start, continuation⟩ := Phase.resolve_continued chained p.name i before.finish
    refine ⟨continuation, fun d read more => ⟨?_, Day.covBy_next d⟩, fun unread => ?_⟩
    · rw [ResolvedPhase.startDay?, start, DateToken.day?_next read more]
    · rw [ResolvedPhase.startDay?, start, DateToken.day?_next_of_unread unread]

theorem entryAt?_congr {others : List Project} {i k j l : Nat} {p q : Project}
    (here : projects[i]? = some p) (there : others[j]? = some q)
    (phase : q.phases[l]? = p.phases[k]?)
    (before : endBefore none q.phases l = endBefore none p.phases k) (today' : Day) :
    (ofProjects others today').entryAt? j l =
      ((ofProjects projects today).entryAt? i k).map (·.under q.name j) := by
  rw [entryAt?_ofProjects, entryAt?_ofProjects, here, there, Option.bind_some, Option.bind_some,
    phase, before, Option.map_map]
  rfl

theorem entryAt?_editPhase {i k j l : Nat} {change : Phase → Phase} (other : (j, l) ≠ (i, k))
    (apart : ¬ (ofProjects projects today).Reaches i k change j l) :
    (ofProjects (editPhase projects i k change) today).entryAt? j l =
      (ofProjects projects today).entryAt? j l := by
  rw [entryAt?_ofProjects, entryAt?_ofProjects]
  -- Only the next phase of the same project sees the end of the edited one.
  by_cases elsewhere : i = j
  case neg => rw [editPhase, List.getElem?_modify_ne _ _ elsewhere]
  subst elsewhere
  rw [editPhase, List.getElem?_modify_eq]
  cases project : projects[i]? with
  | none => rfl
  | some p =>
    have unedited : k ≠ l := fun same => other (by rw [same])
    rw [Option.map_eq_map, Option.map_some, Option.bind_some, Option.bind_some,
      List.getElem?_modify_ne _ _ unedited]
    by_cases following : l = k + 1
    case neg => rw [endBefore_modify none p.phases following]
    subst following
    cases written : p.phases[k + 1]? with
    | none => rfl
    | some next =>
      obtain ⟨inside, -⟩ := List.getElem?_eq_some_iff.1 written
      have prior : p.phases[k]? = some p.phases[k] := List.getElem?_eq_getElem (by omega)
      simp only [endBefore, List.getElem?_modify_eq, prior, Option.map_eq_map, Option.map_some,
        Option.some_inj]
      by_cases chained : next.isChained = true
      · -- The one phase that the edit may reach; it does not, so the end is the same.
        have same : (change p.phases[k]).finish = p.phases[k].finish := by
          by_contra moved
          refine apart ⟨rfl, rfl, p.phases[k], next, ?_, ?_, chained, moved⟩
          · exact Option.bind_eq_some_iff.2 ⟨p, project, prior⟩
          · exact Option.bind_eq_some_iff.2 ⟨p, project, written⟩
        rw [same]
      · exact Phase.resolve_of_not_chained (by simpa using chained) _ _ _ _

/-- Every phase has one entry, in its place. The entry depends on the phase and on the end of the
phase before it; so an edit of one phase reaches no other, except that its end reaches the phase
that continues it. -/
theorem chained_ofProjects (projects : List Project) (today : Day) :
    (ofProjects projects today).Chained ∧
      (∀ (others : List Project) (today' : Day) (i k j l : Nat) (p q : Project),
        projects[i]? = some p → others[j]? = some q → q.phases[l]? = p.phases[k]? →
          endBefore none q.phases l = endBefore none p.phases k →
            (ofProjects others today').entryAt? j l =
              ((ofProjects projects today).entryAt? i k).map (·.under q.name j)) ∧
      ∀ (i k : Nat) (change : Phase → Phase) (j l : Nat), (j, l) ≠ (i, k) →
        (ofProjects (editPhase projects i k change) today).entryAt? j l ≠
          (ofProjects projects today).entryAt? j l →
            (ofProjects projects today).Reaches i k change j l := by
  refine ⟨chained_of_projects projects today, ?_, ?_⟩
  · intro others today' i k j l p q here there phase before
    exact entryAt?_congr here there phase before today'
  · intro i k change j l other moved
    by_contra apart
    exact moved (entryAt?_editPhase other apart)

/-- A phase that lasts to the end of the year 9999, and one that continues it. -/
def turn : List Project :=
  [⟨"Web", [⟨"Design", some ⟨"9999-02"⟩, ⟨"9999-12"⟩, []⟩, ⟨"Build", none, ⟨"+10000-02-29"⟩, []⟩]⟩]

theorem chained_turn :
    ∃ r, (ofProjects turn (Month.ofYear 2026 1).first).entryAt? 0 1 = some r ∧
      r.isContinuation = true ∧ r.startDay? = some (Month.ofYear 10000 1).first := by
  have chained := (chained_ofProjects turn (Month.ofYear 2026 1).first).1
  have continued := chained.continued 0 0 _ _ _ rfl rfl rfl rfl
  have last : (⟨"9999-12"⟩ : DateToken).day? .finish = some (Month.ofYear 9999 12).last := by
    decide +kernel
  exact ⟨_, rfl, continued.1, (continued.2.1 _ last (by decide)).1⟩

end Schedule

end Roadmap
