import Mathlib.Data.Finset.Card
import Roadmap.Findings
import Roadmap.Proofs.Calendar.Granularity
import Roadmap.Proofs.Schedule.Chaining
import Roadmap.Proofs.Schedule.Window

namespace Roadmap

open Calendar

namespace Finding

inductive Kind where
  | emptyProjectName
  | duplicateProjectName
  | invalidDate
  | endBeforeStart
  | unanchoredContinuation
  deriving DecidableEq

def kind : Finding → Kind
  | emptyProjectName => .emptyProjectName
  | duplicateProjectName _ => .duplicateProjectName
  | invalidDate .. => .invalidDate
  | endBeforeStart .. => .endBeforeStart
  | unanchoredContinuation .. => .unanchoredContinuation

def tally (k : Kind) (found : List Finding) : Nat := found.countP (·.kind = k)

theorem tally_append (k : Kind) (first second : List Finding) :
    tally k (first ++ second) = tally k first + tally k second :=
  List.countP_append

theorem tally_of_kind {own : Kind} {found : List Finding} (alike : ∀ f ∈ found, f.kind = own)
    (k : Kind) : tally k found = if own = k then found.length else 0 := by
  split
  · next same => exact List.countP_eq_length.2 fun f member => by simp [alike f member, same]
  · next other => exact List.countP_eq_zero.2 fun f member => by simp [alike f member, other]

theorem length_flatMap_eq {α β : Type} {look : α → List Finding} {parts : α → List β}
    {faulty : β → Bool} (each : ∀ a, (look a).length = (parts a).countP faulty) (items : List α) :
    (items.flatMap look).length = (items.flatMap parts).countP faulty := by
  induction items with
  | nil => rfl
  | cons a items ih =>
    rw [List.flatMap_cons, List.flatMap_cons, List.length_append, List.countP_append, each, ih]

/-- Items that give one finding of a kind if they are faulty, and else none, give as many as there
are faulty ones. -/
theorem tally_flatMap_of_one {α : Type} {look : α → List Finding} {faulty : α → Bool} {own : Kind}
    (one : ∀ a, faulty a = false ∧ look a = [] ∨
      faulty a = true ∧ ∃ f, look a = [f] ∧ f.kind = own) (k : Kind) (items : List α) :
    tally k (items.flatMap look) = if own = k then items.countP faulty else 0 := by
  have alike : ∀ f ∈ items.flatMap look, f.kind = own := by
    intro f member
    obtain ⟨a, -, found⟩ := List.mem_flatMap.1 member
    rcases one a with ⟨-, none⟩ | ⟨-, g, single, kind⟩
    · rw [none] at found
      cases found
    · rw [single, List.mem_singleton] at found
      rw [found, kind]
  have each (a : α) : (look a).length = [a].countP faulty := by
    rcases one a with ⟨sound, none⟩ | ⟨fault, g, single, -⟩
    · simp [none, sound]
    · simp [single, fault]
  rw [tally_of_kind alike, length_flatMap_eq each, List.flatMap_singleton']

def ofNames : List String → List String → List Finding
  | _, [] => []
  | before, name :: rest => ofName name before ++ ofNames (name :: before) rest

theorem tally_ofProjects (k : Kind) (before : List String) (projects : List Project) :
    tally k (ofProjects before projects) =
      tally k (ofNames before (projects.map Project.name)) +
        tally k (projects.flatMap ofFirstPhase) +
        tally k (projects.flatMap fun p => p.phases.flatMap (ofTokens p.name)) := by
  induction projects generalizing before with
  | nil => rfl
  | cons p projects ih =>
    simp only [ofProjects, ofProject, ofNames, List.map_cons, List.flatMap_cons, tally_append, ih]
    omega

end Finding

def Project.isUnanchored (p : Project) : Bool :=
  match p.phases with
  | [] => false
  | first :: _ => first.start.isNone

def Phase.written (p : Phase) : List DateToken :=
  match p.start with
  | some start => [start, p.finish]
  | none => [p.finish]

def DateToken.isDayless (t : DateToken) : Bool :=
  (t.day? .start).isNone || (t.day? .finish).isNone

def ResolvedPhase.isInverted (p : ResolvedPhase) : Bool :=
  match p.start.day? .start, p.finish.day? .finish with
  | some first, some last => last < first
  | _, _ => false

theorem ResolvedPhase.isInverted_iff {p : ResolvedPhase} :
    p.isInverted = true ↔ ∃ first last, p.start.day? .start = some first ∧
      p.finish.day? .finish = some last ∧ last < first := by
  unfold isInverted
  cases p.start.day? .start <;> cases p.finish.day? .finish <;> simp

theorem DateToken.isDayless_eq (t : DateToken) : t.isDayless = !t.isResolvable := by
  unfold isDayless isResolvable
  cases t.day? .start <;> cases t.day? .finish <;> rfl

theorem Phase.tokens_eq (p : Phase) : p.tokens = p.written := by
  unfold tokens written
  cases p.start <;> rfl

namespace Finding

theorem tally_ofFirstPhase (k : Kind) (projects : List Project) :
    tally k (projects.flatMap ofFirstPhase) =
      if .unanchoredContinuation = k then projects.countP Project.isUnanchored else 0 := by
  refine tally_flatMap_of_one (fun p => ?_) k projects
  unfold ofFirstPhase Project.isUnanchored
  cases p.phases with
  | nil => exact .inl ⟨rfl, rfl⟩
  | cons first rest =>
    cases chained : first.start.isNone <;> simp [Phase.isChained, chained, kind]

theorem tally_ofTokens (k : Kind) (projects : List Project) :
    tally k (projects.flatMap fun p => p.phases.flatMap (ofTokens p.name)) =
      if .invalidDate = k then
        (projects.flatMap fun p => p.phases.flatMap Phase.written).countP DateToken.isDayless
      else 0 := by
  have alike : ∀ f ∈ projects.flatMap fun p => p.phases.flatMap (ofTokens p.name),
      f.kind = .invalidDate := by
    intro f member
    obtain ⟨p, -, found⟩ := List.mem_flatMap.1 member
    obtain ⟨phase, -, own⟩ := List.mem_flatMap.1 found
    obtain ⟨token, -, rfl⟩ := List.mem_map.1 own
    rfl
  rw [tally_of_kind alike]
  congr 1
  refine length_flatMap_eq (fun p => length_flatMap_eq (fun phase => ?_) p.phases) projects
  rw [ofTokens, List.length_map, List.countP_eq_length_filter, Phase.tokens_eq,
    funext DateToken.isDayless_eq]

theorem tally_ofResolved (k : Kind) (phases : List ResolvedPhase) :
    tally k (phases.flatMap ofResolved) =
      if .endBeforeStart = k then phases.countP ResolvedPhase.isInverted else 0 := by
  refine tally_flatMap_of_one (fun r => ?_) k phases
  unfold ofResolved ResolvedPhase.isInverted ResolvedPhase.startDay? ResolvedPhase.finishDay?
  cases r.start.day? .start with
  | none => exact .inl ⟨rfl, rfl⟩
  | some start =>
    cases r.finish.day? .finish with
    | none => exact .inl ⟨rfl, rfl⟩
    | some finish => by_cases before : finish < start <;> simp [before, kind]

theorem tally_findings (k : Kind) (projects : List Project) :
    tally k (findings projects) =
      tally k (ofNames [] (projects.map Project.name)) +
        (if .unanchoredContinuation = k then projects.countP Project.isUnanchored else 0) +
        (if .invalidDate = k then
          (projects.flatMap fun p => p.phases.flatMap Phase.written).countP DateToken.isDayless
        else 0) +
        (if .endBeforeStart = k then
          (resolvedPhases projects).countP ResolvedPhase.isInverted
        else 0) := by
  rw [findings, tally_append, tally_ofProjects, tally_ofFirstPhase, tally_ofTokens,
    tally_ofResolved]

def proper (names : List String) : List String := names.filter (· ≠ "")

theorem tally_ofNames_empty (before names : List String) :
    tally .emptyProjectName (ofNames before names) = names.countP (· = "") := by
  induction names generalizing before with
  | nil => rfl
  | cons name names ih =>
    rw [ofNames, tally_append, ih, List.countP_cons, Nat.add_comm, ofName]
    by_cases empty : name = ""
    · simp [tally, kind, empty]
    · rw [if_neg empty]
      split <;> simp [tally, kind, empty]

theorem tally_ofNames_duplicate (before names : List String) :
    tally .duplicateProjectName (ofNames before names) +
        ((proper before).toFinset ∪ (proper names).toFinset).card =
      (proper before).toFinset.card + (proper names).length := by
  -- A name that has been looked at goes over to those before.
  induction names generalizing before with
  | nil => simp [ofNames, proper, tally]
  | cons name names ih =>
    have later := ih (name :: before)
    rw [ofNames, tally_append, ofName]
    by_cases empty : name = ""
    · have skipped : ∀ names, proper (name :: names) = proper names := fun names => by
        simp [proper, empty]
      rw [skipped] at later ⊢
      rw [if_pos empty, tally, List.countP_singleton]
      simpa [kind] using later
    · have taken : ∀ names, proper (name :: names) = name :: proper names := fun names => by
        simp [proper, empty]
      rw [taken, List.toFinset_cons, Finset.insert_union] at later
      rw [taken, List.toFinset_cons, Finset.union_insert, List.length_cons, if_neg empty]
      have seen : name ∈ (proper before).toFinset ↔ name ∈ before := by simp [proper, empty]
      split
      · next before =>
        rw [Finset.card_insert_of_mem (seen.2 before)] at later
        rw [tally, List.countP_singleton, if_pos (by simp [kind])]
        omega
      · next new =>
        rw [Finset.card_insert_of_notMem fun member => new (seen.1 member)] at later
        rw [tally, List.countP_nil]
        omega

theorem tally_ofNames_other {k : Kind} (empty : k ≠ .emptyProjectName)
    (duplicate : k ≠ .duplicateProjectName) (before names : List String) :
    tally k (ofNames before names) = 0 := by
  induction names generalizing before with
  | nil => rfl
  | cons name names ih =>
    rw [ofNames, tally_append, ih, ofName]
    split
    · simp [tally, kind, empty.symm]
    · split
      · simp [tally, kind, duplicate.symm]
      · rfl

end Finding

theorem exists_first_of_isUnanchored {projects : List Project} {i : Nat} {p : Project}
    (project : projects[i]? = some p) (unanchored : p.isUnanchored = true) :
    ∃ r, ((resolvedPhases projects).filter (·.projectIndex = i)).head? = some r ∧
      r.isInverted = false := by
  have own := filter_zipIdx projects 0 i
  rw [if_pos i.zero_le, Nat.sub_zero, project, Option.map_some, Option.getD_some] at own
  unfold Project.isUnanchored at unanchored
  cases phases : p.phases with
  | nil => simp [phases] at unanchored
  | cons phase rest =>
    have chained : phase.start = none := by simpa [phases] using unanchored
    rw [phases] at own
    refine ⟨phase.resolve p.name i none, congrArg List.head? own, ?_⟩
    rw [Bool.eq_false_iff]
    intro inverted
    obtain ⟨first, last, start, finish, before⟩ := ResolvedPhase.isInverted_iff.1 inverted
    rw [(Phase.resolve_first chained p.name i).1] at start
    exact Day.not_le.2 before (DateToken.le_of_readings start finish).1

/-- Each kind of finding is made as often as there is something of that kind to find. -/
structure Tallied (projects : List Project) : Prop where
  empty : Finding.tally .emptyProjectName (findings projects) = projects.countP (·.name = "")
  duplicate :
    Finding.tally .duplicateProjectName (findings projects) +
      (Finding.proper (projects.map Project.name)).toFinset.card =
        (Finding.proper (projects.map Project.name)).length
  unanchored :
    Finding.tally .unanchoredContinuation (findings projects) =
      projects.countP Project.isUnanchored
  invalid :
    Finding.tally .invalidDate (findings projects) =
      (projects.flatMap fun p => p.phases.flatMap Phase.written).countP DateToken.isDayless
  inverted :
    Finding.tally .endBeforeStart (findings projects) =
      (resolvedPhases projects).countP ResolvedPhase.isInverted
  first : ∀ i p, projects[i]? = some p → p.isUnanchored = true →
    ∃ r, ((resolvedPhases projects).filter (·.projectIndex = i)).head? = some r ∧
      r.isInverted = false

theorem tallied_findings (projects : List Project) : Tallied projects := by
  constructor
  case empty =>
    rw [Finding.tally_findings, Finding.tally_ofNames_empty, List.countP_map]
    rfl
  case duplicate =>
    have names := Finding.tally_ofNames_duplicate [] (projects.map Project.name)
    simpa [Finding.tally_findings, Finding.proper] using names
  case unanchored => simp [Finding.tally_findings, Finding.tally_ofNames_other]
  case invalid => simp [Finding.tally_findings, Finding.tally_ofNames_other]
  case inverted => simp [Finding.tally_findings, Finding.tally_ofNames_other]
  case first =>
    intro i p project unanchored
    exact exists_first_of_isUnanchored project unanchored

/-- Two projects of one name, of which the first begins with a phase that continues nothing, and one
without a name. A bad end is followed by a phase that continues it, and a phase is upside down. -/
def muddled : List Project :=
  [⟨"Web", [⟨"Design", none, ⟨"2025-02"⟩, []⟩, ⟨"Build", some ⟨"soon"⟩, ⟨"2025-13-01"⟩, []⟩,
    ⟨"Ship", none, ⟨"2025-06"⟩, []⟩]⟩,
    ⟨"", []⟩,
    ⟨"Web", [⟨"Plan", some ⟨"2025-03"⟩, ⟨"2025-01"⟩, []⟩]⟩]

theorem tallied_muddled :
    Tallied muddled ∧
      [Finding.Kind.emptyProjectName, .duplicateProjectName, .unanchoredContinuation, .invalidDate,
          .endBeforeStart].map (Finding.tally · (findings muddled)) = [1, 1, 1, 2, 1] :=
  ⟨tallied_findings muddled, by decide +kernel⟩

end Roadmap
