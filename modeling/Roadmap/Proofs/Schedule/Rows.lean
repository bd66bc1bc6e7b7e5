import Mathlib.Data.List.Forall2
import Roadmap.Proofs.Schedule.Chaining
import Roadmap.Proofs.Schedule.Persons
import Roadmap.Proofs.Text.Bytes
import Roadmap.Schedule.Workload

namespace Roadmap

open Calendar Text

/-- Where a share is written: the numbers of its project, of its phase in the project and of the
share in the phase. -/
structure Site where
  project : Nat
  phase : Nat
  share : Nat

def sites (projects : List Project) : List Site :=
  projects.zipIdx.flatMap fun (p, i) =>
    p.phases.zipIdx.flatMap fun (phase, k) => phase.shares.zipIdx.map fun (_, l) => ⟨i, k, l⟩

def ResolvedPhase.row (r : ResolvedPhase) (share : Share) : PersonRow where
  person := share.person
  project := r.project
  projectIndex := r.projectIndex
  phase := r.name
  start := r.start
  finish := r.finish
  portion := share.portion
  isContinuation := r.isContinuation

def sumFrom (sum : Float) : List Float → Float
  | [] => sum
  | portion :: rest => sumFrom (sum + portion) rest

theorem totalOf_eq_sumFrom (portions : List Float) :
    totalOf portions = sumFrom (-0.0) portions := by
  have each (sum : Float) : portions.foldl (· + ·) sum = sumFrom sum portions := by
    induction portions generalizing sum with
    | nil => rfl
    | cons portion rest ih => exact ih (sum + portion)
  exact each (-0.0)

theorem ResolvedPhase.rows_eq (r : ResolvedPhase) : r.rows = r.shares.map r.row := rfl

theorem resolvePhases_eq (project : String) (index : Nat) (phases : List Phase) :
    resolvePhases project index none phases = phases.zipIdx.map fun (phase, k) =>
      phase.resolve project index (endBefore none phases k) := by
  apply List.ext_getElem?
  intro k
  rw [getElem?_resolvePhases, List.getElem?_map, List.getElem?_zipIdx, Option.map_map, Nat.zero_add]
  rfl

def sitedRows (p : Project) (i : Nat) (phase : Phase) (k : Nat) : List (Site × PersonRow) :=
  let entry := phase.resolve p.name i (endBefore none p.phases k)
  phase.shares.zipIdx.map fun (share, l) => (⟨i, k, l⟩, entry.row share)

def sited (projects : List Project) : List (Site × PersonRow) :=
  projects.zipIdx.flatMap fun (p, i) =>
    p.phases.zipIdx.flatMap fun (phase, k) => sitedRows p i phase k

theorem map_fst_sited (projects : List Project) :
    (sited projects).map Prod.fst = sites projects := by
  simp only [sited, sites, sitedRows, List.map_flatMap, List.map_map]
  rfl

theorem map_snd_sitedRows (p : Project) (i : Nat) (phase : Phase) (k : Nat) :
    (sitedRows p i phase k).map Prod.snd =
      (phase.resolve p.name i (endBefore none p.phases k)).rows := by
  rw [sitedRows, ResolvedPhase.rows_eq, List.map_map]
  conv_rhs => rw [Phase.resolve, ← List.zipIdx_map_fst 0 phase.shares, List.map_map]
  rfl

theorem number_of_mem_sitedRows {p : Project} {i : Nat} {phase : Phase} {k : Nat}
    {sitedRow : Site × PersonRow} (member : sitedRow ∈ sitedRows p i phase k) :
    sitedRow.1.project = i ∧ sitedRow.1.phase = k := by
  obtain ⟨_, -, rfl⟩ := List.mem_map.1 member
  exact ⟨rfl, rfl⟩

theorem map_snd_sited (projects : List Project) :
    (sited projects).map Prod.snd = personRows (resolvedPhases projects) := by
  simp only [sited, personRows, resolvedPhases, List.map_flatMap, List.flatMap_assoc,
    resolvePhases_eq, List.flatMap_map, map_snd_sitedRows]

theorem map_person_resolvePhases (project : String) (index : Nat) (before : Option DateToken)
    (phases : List Phase) :
    (personRows (resolvePhases project index before phases)).map PersonRow.person =
      phases.flatMap fun phase => phase.shares.map Share.person := by
  induction phases generalizing before with
  | nil => rfl
  | cons phase phases ih =>
    have own : (phase.resolve project index before).rows.map PersonRow.person =
        phase.shares.map Share.person := by
      rw [ResolvedPhase.rows_eq, List.map_map]
      rfl
    rw [resolvePhases, personRows, List.flatMap_cons, List.map_append, own, List.flatMap_cons]
    exact congrArg _ (ih _)

theorem map_person_personRows (projects : List Project) :
    (personRows (resolvedPhases projects)).map PersonRow.person =
      projects.flatMap fun p => p.phases.flatMap fun phase => phase.shares.map Share.person := by
  conv_rhs => rw [← List.zipIdx_map_fst 0 projects, List.flatMap_map]
  rw [personRows, resolvedPhases, List.flatMap_assoc, List.map_flatMap]
  exact List.flatMap_congr fun q _ => map_person_resolvePhases q.1.name q.2 none q.1.phases

namespace Workload

variable {s : Schedule} {name : String}

theorem map_person_ofSchedule (s : Schedule) :
    (ofSchedule s).persons.map PersonLoad.person = s.persons := by
  simp [ofSchedule, Function.comp_def]

theorem isSome_person? : ((ofSchedule s).person? name).isSome ↔ name ∈ s.persons := by
  conv_rhs => rw [← map_person_ofSchedule s, List.mem_map]
  simp [person?]

theorem person?_eq_some_iff (distinct : s.persons.Nodup) {load : PersonLoad} :
    (ofSchedule s).person? name = some load ↔
      load ∈ (ofSchedule s).persons ∧ load.person = name := by
  have sound {load : PersonLoad} (found : (ofSchedule s).person? name = some load) :
      load ∈ (ofSchedule s).persons ∧ load.person = name :=
    ⟨List.mem_of_find?_eq_some found, by simpa using List.find?_some found⟩
  refine ⟨sound, fun ⟨member, same⟩ => ?_⟩
  have listed : name ∈ s.persons := by
    rw [← map_person_ofSchedule s, ← same]
    exact List.mem_map_of_mem member
  obtain ⟨first, found⟩ := Option.isSome_iff_exists.1 (isSome_person?.2 listed)
  obtain ⟨member', same'⟩ := sound found
  rw [← map_person_ofSchedule s] at distinct
  rw [found, List.inj_on_of_nodup_map distinct member' member (same'.trans same.symm)]

end Workload

namespace Schedule

/-- Is the row of the share at a site: with the names as they are written, and with the days of the
entry that the phase has. -/
def Records (s : Schedule) (site : Site) (row : PersonRow) : Prop :=
  ∃ p phase share entry, s.projects[site.project]? = some p ∧
    p.phases[site.phase]? = some phase ∧ phase.shares[site.share]? = some share ∧
      s.entryAt? site.project site.phase = some entry ∧
        row = { person := share.person, project := p.name, projectIndex := site.project,
                phase := phase.name, start := entry.start, finish := entry.finish,
                portion := share.portion, isContinuation := entry.isContinuation }

def rowsAt (s : Schedule) (i k : Nat) : List PersonRow :=
  (((sites s.projects).zip s.rows).filter fun (site, _) =>
    site.project = i ∧ site.phase = k).map Prod.snd

theorem perm_flatMap_rowsOf (s : Schedule) {names : List String} (distinct : names.Nodup) :
    (names.flatMap s.rowsOf).Perm (s.rows.filter (·.person ∈ names)) := by
  induction names with
  | nil => simp
  | cons name names ih =>
    obtain ⟨new, distinct⟩ := List.nodup_cons.1 distinct
    have own : (s.rows.filter (·.person ∈ name :: names)).filter (·.person = name) =
        s.rowsOf name := by
      rw [List.filter_filter]
      exact List.filter_congr fun row _ => by simpa using Or.inl
    have others : (s.rows.filter (·.person ∈ name :: names)).filter
        (fun row => !decide (row.person = name)) = s.rows.filter (·.person ∈ names) := by
      rw [List.filter_filter]
      refine List.filter_congr fun row _ => ?_
      have apart : row.person ∈ names → row.person ≠ name := fun member same => new (same ▸ member)
      grind
    rw [List.flatMap_cons, ← own]
    refine (List.Perm.append_left _ ?_).trans (List.filter_append_perm _ _)
    rw [others]
    exact ih distinct

theorem mem_rowsOf {s : Schedule} {name : String} {row : PersonRow} :
    row ∈ s.rowsOf name ↔ row ∈ s.rows ∧ row.person = name := by
  simp [rowsOf]

variable {projects : List Project} {today : Day}

theorem zip_rows : (sites projects).zip (ofProjects projects today).rows = sited projects :=
  (List.zip_of_prod (map_fst_sited projects) (map_snd_sited projects)).symm

theorem records_of_mem_sited {site : Site} {row : PersonRow}
    (member : (site, row) ∈ sited projects) : (ofProjects projects today).Records site row := by
  obtain ⟨⟨p, i⟩, project, member⟩ := List.mem_flatMap.1 member
  obtain ⟨⟨phase, k⟩, own, member⟩ := List.mem_flatMap.1 member
  obtain ⟨⟨share, l⟩, written, same⟩ := List.mem_map.1 member
  obtain ⟨rfl, rfl⟩ := Prod.mk.inj same
  rw [List.mk_mem_zipIdx_iff_getElem?] at project own written
  refine ⟨p, phase, share, _, project, own, written, ?_, rfl⟩
  rw [entryAt?_ofProjects, project, Option.bind_some, own, Option.map_some]

theorem rowsAt_ofProjects {i k : Nat} {p : Project} {phase : Phase} (project : projects[i]? = some p)
    (own : p.phases[k]? = some phase) :
    (ofProjects projects today).rowsAt i k =
      (phase.resolve p.name i (endBefore none p.phases k)).rows := by
  have ofProject : (sited projects).filter (·.1.project = i) =
      p.phases.zipIdx.flatMap fun (phase, k) => sitedRows p i phase k := by
    rw [sited, filter_flatMap_zipIdx, if_pos i.zero_le, Nat.sub_zero, project, Option.map_some,
      Option.getD_some]
    intro _ _ member
    obtain ⟨_, -, member⟩ := List.mem_flatMap.1 member
    exact (number_of_mem_sitedRows member).1
  have ofPhase : (p.phases.zipIdx.flatMap fun (phase, k) => sitedRows p i phase k).filter
      (·.1.phase = k) = sitedRows p i phase k := by
    rw [filter_flatMap_zipIdx fun _ _ member => (number_of_mem_sitedRows member).2,
      if_pos k.zero_le, Nat.sub_zero, own, Option.map_some, Option.getD_some]
  have both : (sited projects).filter (fun (site, _) => site.project = i ∧ site.phase = k) =
      ((sited projects).filter (·.1.project = i)).filter (·.1.phase = k) := by
    rw [List.filter_filter]
    exact List.filter_congr fun sitedRow _ => by simp [Bool.and_comm]
  have zipped : (sites projects).zip (ofProjects projects today).rows = sited projects := zip_rows
  rw [← map_snd_sitedRows, ← ofPhase, ← ofProject, ← both, ← zipped]
  rfl

theorem mem_persons_iff {name : String} :
    name ∈ (ofProjects projects today).persons ↔
      ∃ row ∈ (ofProjects projects today).rows, row.person = name := by
  have written : (ofProjects projects today).rows.map PersonRow.person =
      projects.flatMap fun p => p.phases.flatMap fun phase => phase.shares.map Share.person :=
    map_person_personRows projects
  rw [← List.mem_map, written, ofProjects, personNames, mem_foldl_insertName]
  simp only [List.not_mem_nil, or_false]

theorem forall₂_records :
    List.Forall₂ (ofProjects projects today).Records (sites projects)
      (ofProjects projects today).rows := by
  have recorded : List.Forall₂ (ofProjects projects today).Records
      ((sited projects).map Prod.fst) ((sited projects).map Prod.snd) := by
    rw [List.forall₂_map_left_iff, List.forall₂_map_right_iff, List.forall₂_same]
    exact fun _ member => records_of_mem_sited member
  rwa [map_fst_sited, map_snd_sited] at recorded

theorem perm_rowsOf_persons :
    ((ofProjects projects today).persons.flatMap (ofProjects projects today).rowsOf).Perm
      (ofProjects projects today).rows := by
  have distinct : (ofProjects projects today).persons.Nodup := nodup_personNames projects
  have split := perm_flatMap_rowsOf (ofProjects projects today) distinct
  have all : (ofProjects projects today).rows.filter
      (·.person ∈ (ofProjects projects today).persons) = (ofProjects projects today).rows :=
    List.filter_eq_self.2 fun row member => decide_eq_true (mem_persons_iff.2 ⟨row, member, rfl⟩)
  rwa [all] at split

theorem total_of_phaseAt? {i k : Nat} {phase : Phase}
    (written : (ofProjects projects today).phaseAt? i k = some phase) :
    ∃ entry, (ofProjects projects today).entryAt? i k = some entry ∧
      entry.total =
        sumFrom (-0.0) (((ofProjects projects today).rowsAt i k).map PersonRow.portion) := by
  obtain ⟨p, project, own, entry⟩ := entryAt?_of_phaseAt? written
  refine ⟨_, entry, ?_⟩
  rw [rowsAt_ofProjects project own, ResolvedPhase.rows_eq, List.map_map, ← totalOf_eq_sumFrom]
  rfl

/-- No share is lost and none counts for two persons. There are as many rows as shares, in the same
order; the persons are those of the rows, and each row belongs to one of them. -/
structure Accounted (s : Schedule) : Prop where
  ordered : s.persons.Pairwise fun a b => bytes a < bytes b
  persons : ∀ name, name ∈ s.persons ↔
    ∃ p ∈ s.projects, ∃ phase ∈ p.phases, ∃ share ∈ phase.shares, share.person = name
  rows : List.Forall₂ s.Records (sites s.projects) s.rows
  parts : (s.persons.flatMap s.rowsOf).Perm s.rows
  part : ∀ name ∈ s.persons, s.rowsOf name ≠ [] ∧ (s.rowsOf name).Sublist s.rows
  own : ∀ name row, row ∈ s.rowsOf name ↔ row ∈ s.rows ∧ row.person = name
  owner : ∀ row ∈ s.rows, ∃! name, name ∈ s.persons ∧ row ∈ s.rowsOf name
  total : ∀ i k phase, s.phaseAt? i k = some phase → ∃ entry, s.entryAt? i k = some entry ∧
    entry.total = sumFrom (-0.0) ((s.rowsAt i k).map PersonRow.portion)
  found : ∀ name, ((Workload.ofSchedule s).person? name).isSome ↔ name ∈ s.persons
  load : ∀ name load, (Workload.ofSchedule s).person? name = some load ↔
    load ∈ (Workload.ofSchedule s).persons ∧ load.person = name

theorem accounted_ofProjects (projects : List Project) (today : Day) :
    (ofProjects projects today).Accounted := by
  constructor
  case ordered => exact (sorted_personNames projects).imp bytes_lt_bytes
  case persons => exact fun name => mem_personNames
  case rows => exact forall₂_records
  case parts => exact perm_rowsOf_persons
  case part =>
    intro name member
    obtain ⟨row, inside, rfl⟩ := mem_persons_iff.1 member
    exact ⟨List.ne_nil_of_mem (mem_rowsOf.2 ⟨inside, rfl⟩), List.filter_sublist⟩
  case own => exact fun name row => mem_rowsOf
  case owner =>
    intro row member
    refine ⟨row.person, ⟨mem_persons_iff.2 ⟨row, member, rfl⟩, mem_rowsOf.2 ⟨member, rfl⟩⟩, ?_⟩
    rintro name ⟨-, own⟩
    exact (mem_rowsOf.1 own).2.symm
  case total => exact fun i k phase written => total_of_phaseAt? written
  case found => exact fun name => Workload.isSome_person?
  case load => exact fun name load => Workload.person?_eq_some_iff (nodup_personNames projects)

/-- One person twice in a phase and again in another project, and a phase that nobody shares. -/
def shared : List Project :=
  [⟨"Web", [⟨"Design", some ⟨"2025-01"⟩, ⟨"2025-02"⟩, [⟨"Bo", 0.25⟩, ⟨"Ann", 0.5⟩, ⟨"Bo", 1⟩]⟩,
    ⟨"Ship", none, ⟨"2025-03"⟩, []⟩]⟩,
    ⟨"App", [⟨"Plan", none, ⟨"2025-02"⟩, [⟨"Ann", 0.125⟩]⟩]⟩]

theorem accounted_shared :
    (ofProjects shared (Month.ofYear 2026 1).first).Accounted ∧
      (ofProjects shared (Month.ofYear 2026 1).first).persons = ["Ann", "Bo"] ∧
      (ofProjects shared (Month.ofYear 2026 1).first).rows.map
          (fun row => (row.person, row.projectIndex, row.portion)) =
        [("Bo", 0, 0.25), ("Ann", 0, 0.5), ("Bo", 0, 1), ("Ann", 1, 0.125)] ∧
      (ofProjects shared (Month.ofYear 2026 1).first).phases.map ResolvedPhase.total =
        [1.75, -0.0, 0.125] :=
  ⟨accounted_ofProjects shared _, by decide +kernel, by decide +kernel, by decide +kernel⟩

end Schedule

end Roadmap
