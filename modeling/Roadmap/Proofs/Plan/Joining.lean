import Roadmap.Proofs.Plan.Grammar

namespace Roadmap

namespace Text

theorem pieces_append (mark : Char) (front rest : List Char) :
    pieces mark (front ++ mark :: rest) = pieces mark front ++ pieces mark rest := by
  conv_lhs => rw [← joined_pieces mark front]
  exact pieces_joined_append (pieces_ne_nil mark front) (fun _ => not_mem_of_mem_pieces) rest

end Text

namespace Plan

open Text

/-- What has been read up to a line: the projects that are closed, and the one that is open. -/
structure Progress where
  closed : List Project
  current : Option Project

namespace Progress

def start : Progress := ⟨[], none⟩

def projects (s : Progress) : List Project := s.closed ++ s.current.toList

def read (s : Progress) (line : List Char) : Progress :=
  match Line.ofText? line with
  | some (.heading name) => ⟨s.projects, some ⟨name, []⟩⟩
  | some (.phase p) => ⟨s.closed, s.current.map fun q => ⟨q.name, q.phases ++ [p]⟩⟩
  | none => s

/-- No project is open only as long as none has been opened. -/
def Sound (s : Progress) : Prop := s.current = none → s.closed = []

theorem sound_start : start.Sound := fun _ => rfl

theorem sound_read {s : Progress} (sound : s.Sound) (line : List Char) : (s.read line).Sound := by
  unfold read
  split
  · exact nofun
  · exact fun none => sound (Option.map_eq_none_iff.1 none)
  · exact sound

theorem sound_foldl_read {s : Progress} (sound : s.Sound) (lines : List (List Char)) :
    (lines.foldl read s).Sound := by
  induction lines generalizing s with
  | nil => exact sound
  | cons line lines ih => exact ih (sound_read sound line)

theorem continued_read {s : Progress} (sound : s.Sound) (line : List Char) (rest : List Line) :
    continued (s.read line).projects rest =
      continued s.projects ((Line.ofText? line).toList ++ rest) := by
  unfold read
  cases meaning : Line.ofText? line with
  | none => rfl
  | some l =>
    cases l with
    | heading name => exact (continued_heading s.projects name rest).symm
    | phase p =>
      cases opened : s.current with
      | none =>
        simp only [projects, opened, sound opened, Option.map_none]
        exact (continued_orphan p rest).symm
      | some q =>
        simp only [projects, opened, Option.map_some]
        exact (continued_phase s.closed q p rest).symm

theorem projects_foldl_read {s : Progress} (sound : s.Sound) (lines : List (List Char)) :
    (lines.foldl read s).projects = continued s.projects (lines.filterMap Line.ofText?) := by
  induction lines generalizing s with
  | nil => rw [List.foldl_nil, List.filterMap_nil, continued_nil]
  | cons line lines ih =>
    rw [List.foldl_cons, ih (sound_read sound line), continued_read sound]
    cases meaning : Line.ofText? line with
    | none => rw [List.filterMap_cons_none meaning, Option.toList_none, List.nil_append]
    | some l => rw [List.filterMap_cons_some meaning, Option.toList_some, List.singleton_append]

end Progress

theorem projects_foldl_read_start (text : String) :
    ((pieces '\n' text.toList).foldl Progress.read Progress.start).projects = parse text :=
  Progress.projects_foldl_read Progress.sound_start _

def Line.name? : Line → Option String
  | heading name => some name
  | phase _ => none

def Line.phase? : Line → Option Phase
  | heading _ => none
  | phase p => some p

def leading (lines : List (List Char)) : List Phase :=
  (lines.takeWhile fun line => ((Line.ofText? line).bind Line.name?).isNone).filterMap fun line =>
    (Line.ofText? line).bind Line.phase?

def leadingPhases (text : String) : List Phase := leading (pieces '\n' text.toList)

theorem leading_eq (lines : List (List Char)) :
    leading lines = (assemble (lines.filterMap Line.ofText?)).1 := by
  induction lines with
  | nil => rfl
  | cons line lines ih =>
    unfold leading at ih ⊢
    cases meaning : Line.ofText? line with
    | none => simp [meaning, ih]
    | some l =>
      cases l with
      | heading name => simp [meaning, Line.name?, assemble_heading]
      | phase p => simp [meaning, Line.name?, Line.phase?, assemble_phase, ih]

theorem leadingPhases_of_heading {text : String} {line : List Char} {name : String}
    (first : (pieces '\n' text.toList).head? = some line) (heading : HeadingLine (trim line) name) :
    leadingPhases text = [] := by
  obtain ⟨rest, whole⟩ := List.head?_eq_some_iff.1 first
  rw [leadingPhases, leading_eq, whole, List.filterMap_cons_some (ofText?_eq_heading_iff.2 heading),
    assemble_heading]

theorem parse_append (first second : String) :
    parse (first ++ "\n" ++ second) = giveLast (parse first) (leadingPhases second) ++ parse second := by
  have whole : (first ++ "\n" ++ second).toList = first.toList ++ '\n' :: second.toList := by simp
  have sound := Progress.sound_foldl_read Progress.sound_start (pieces '\n' first.toList)
  rw [← projects_foldl_read_start, whole, pieces_append, List.foldl_append,
    Progress.projects_foldl_read sound, projects_foldl_read_start, leadingPhases, leading_eq]
  rfl

theorem map_name_giveLast (projects : List Project) (phases : List Phase) :
    (giveLast projects phases).map Project.name = projects.map Project.name := by
  rcases List.eq_nil_or_concat' projects with rfl | ⟨front, last, rfl⟩
  · rfl
  · rw [giveLast_concat, List.map_append, List.map_append]
    rfl

theorem flatMap_phases_giveLast (projects : List Project) (phases : List Phase) :
    (giveLast projects phases).flatMap Project.phases =
      projects.flatMap Project.phases ++ if projects = [] then [] else phases := by
  rcases List.eq_nil_or_concat' projects with rfl | ⟨front, last, rfl⟩
  · rfl
  · simp [giveLast_concat]

theorem giveLast_eq_self_iff {projects : List Project} {phases : List Phase} :
    giveLast projects phases = projects ↔ projects = [] ∨ phases = [] := by
  constructor
  · intro same
    have lengths := congrArg List.length (flatMap_phases_giveLast projects phases)
    rw [same, List.length_append] at lengths
    split at lengths
    · next none => exact .inl none
    · exact .inr (List.length_eq_zero_iff.1 (by omega))
  · rintro (rfl | rfl)
    · rfl
    · exact giveLast_nil projects

/-- The whole is read as its parts are, one after the other, but that the phases above the first
heading of the second part go to the last project of the first. -/
structure Joins (first second whole : String) : Prop where
  projects : parse whole = giveLast (parse first) (leadingPhases second) ++ parse second
  /-- The phases above the first heading are those that a heading put in front would gain. -/
  leading : parse (":\n" ++ second) = ⟨"", leadingPhases second⟩ :: parse second
  names : (parse whole).map Project.name =
    (parse first).map Project.name ++ (parse second).map Project.name
  phases : (parse whole).flatMap Project.phases =
    (parse first).flatMap Project.phases ++ (if parse first = [] then [] else leadingPhases second)
      ++ (parse second).flatMap Project.phases
  apart_iff : parse whole = parse first ++ parse second ↔
    parse first = [] ∨ leadingPhases second = []
  headed : ∀ line name, (pieces '\n' second.toList).head? = some line →
    HeadingLine (trim line) name → parse whole = parse first ++ parse second

theorem joins_append (first second : String) : Joins first second (first ++ "\n" ++ second) := by
  constructor
  case projects => exact parse_append first second
  case leading =>
    have heading : parse ":" = [⟨"", []⟩] := by decide +kernel
    have below := parse_append ":" second
    rw [heading] at below
    exact below
  case names => rw [parse_append, List.map_append, map_name_giveLast]
  case phases => rw [parse_append, List.flatMap_append, flatMap_phases_giveLast]
  case apart_iff => rw [parse_append, List.append_cancel_right_eq, giveLast_eq_self_iff]
  case headed =>
    intro line name start heading
    rw [parse_append, leadingPhases_of_heading start heading, giveLast_nil]

end Plan

end Roadmap
