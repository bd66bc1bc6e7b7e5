import Roadmap.Json.Plan
import Roadmap.Schedule.Workload

namespace Roadmap

open Json

namespace Calendar.Day

def json (d : Day) : Json := .text d.toString

def ofJson? (value : Json) : Option Day := value.text?.bind fun text => parseLoose? text.toList

end Calendar.Day

namespace ResolvedPhase

def json (p : ResolvedPhase) : Json :=
  .record
    [("projectName", .text p.project),
     ("projectIndex", .natural p.projectIndex),
     ("name", .text p.name),
     ("startDate", p.start.json),
     ("endDate", p.finish.json),
     ("assignments", .arr (p.shares.map Share.json)),
     ("totalAssignment", .float p.total),
     ("isContinuation", .bool p.isContinuation)]

def ofJson? (value : Json) : Option ResolvedPhase :=
  match value.fields? ["projectName", "projectIndex", "name", "startDate", "endDate", "assignments",
    "totalAssignment", "isContinuation"] with
  | some [project, index, name, start, finish, shares, total, continuation] =>
    return {
      project := ← required text? project
      projectIndex := ← required (natural? 64) index
      name := ← required text? name
      start := ← required DateToken.ofJson? start
      finish := ← required DateToken.ofJson? finish
      shares := ← required (list? Share.ofJson?) shares
      total := ← required float? total
      isContinuation := ← required bool? continuation }
  | _ => none

end ResolvedPhase

namespace PersonRow

def json (r : PersonRow) : Json :=
  .record
    [("person", .text r.person),
     ("projectName", .text r.project),
     ("projectIndex", .natural r.projectIndex),
     ("phaseName", .text r.phase),
     ("startDate", r.start.json),
     ("endDate", r.finish.json),
     ("percentage", .float r.portion),
     ("isContinuation", .bool r.isContinuation)]

def ofJson? (value : Json) : Option PersonRow :=
  match value.fields? ["person", "projectName", "projectIndex", "phaseName", "startDate", "endDate",
    "percentage", "isContinuation"] with
  | some [person, project, index, phase, start, finish, portion, continuation] =>
    return {
      person := ← required text? person
      project := ← required text? project
      projectIndex := ← required (natural? 64) index
      phase := ← required text? phase
      start := ← required DateToken.ofJson? start
      finish := ← required DateToken.ofJson? finish
      portion := ← required float? portion
      isContinuation := ← required bool? continuation }
  | _ => none

end PersonRow

namespace Window

def json (w : Window) : Json := .record [("start", w.start.json), ("end", w.finish.json)]

def ofJson? (value : Json) : Option Window :=
  match value.fields? ["start", "end"] with
  | some [start, finish] =>
    return {
      start := ← required Calendar.Day.ofJson? start
      finish := ← required Calendar.Day.ofJson? finish }
  | _ => none

end Window

namespace Schedule

def json (s : Schedule) : Json :=
  .record
    [("projects", .arr (s.projects.map Project.json)),
     ("computedPhases", .arr (s.phases.map ResolvedPhase.json)),
     ("allPersons", .arr (s.persons.map Json.text)),
     ("personAssignments", .arr (s.rows.map PersonRow.json)),
     ("timeRange", s.window.json)]

def ofJson? (value : Json) : Option Schedule :=
  match value.fields? ["projects", "computedPhases", "allPersons", "personAssignments",
    "timeRange"] with
  | some [projects, phases, persons, rows, window] =>
    return {
      projects := ← required (list? Project.ofJson?) projects
      phases := ← required (list? ResolvedPhase.ofJson?) phases
      persons := ← required (list? text?) persons
      rows := ← required (list? PersonRow.ofJson?) rows
      window := ← required Window.ofJson? window }
  | _ => none

end Schedule

namespace MonthSlot

def json (m : MonthSlot) : Json :=
  .record
    [("year", .integer m.year),
     ("month", .natural m.month),
     ("label", .text m.label),
     ("shortLabel", .text m.shortLabel),
     ("isFirstMonthOfYear", .bool m.isFirstOfYear),
     ("isEvenYear", .bool m.isEvenYear)]

def ofJson? (value : Json) : Option MonthSlot :=
  match value.fields? ["year", "month", "label", "shortLabel", "isFirstMonthOfYear",
    "isEvenYear"] with
  | some [year, month, label, shortLabel, isFirstOfYear, isEvenYear] =>
    return {
      year := ← required (signed? 32) year
      month := ← required (natural? 32) month
      label := ← required text? label
      shortLabel := ← required text? shortLabel
      isFirstOfYear := ← required bool? isFirstOfYear
      isEvenYear := ← required bool? isEvenYear }
  | _ => none

end MonthSlot

namespace PersonLoad

def json (p : PersonLoad) : Json :=
  .record [("person", .text p.person), ("monthly", .arr (p.monthly.map Json.float))]

def ofJson? (value : Json) : Option PersonLoad :=
  match value.fields? ["person", "monthly"] with
  | some [person, monthly] =>
    return { person := ← required text? person, monthly := ← required (list? float?) monthly }
  | _ => none

end PersonLoad

namespace Workload

def json (w : Workload) : Json :=
  .record
    [("months", .arr (w.months.map MonthSlot.json)),
      ("persons", .arr (w.persons.map PersonLoad.json))]

def ofJson? (value : Json) : Option Workload :=
  match value.fields? ["months", "persons"] with
  | some [months, persons] =>
    return {
      months := ← required (list? MonthSlot.ofJson?) months
      persons := ← required (list? PersonLoad.ofJson?) persons }
  | _ => none

end Workload

namespace LoadLevel

def name : LoadLevel → String
  | .idle => "Idle"
  | .light => "Light"
  | .healthy => "Healthy"
  | .overloaded => "Overloaded"

def all : List LoadLevel := [.idle, .light, .healthy, .overloaded]

def json (level : LoadLevel) : Json := .text level.name

def ofJson? (value : Json) : Option LoadLevel :=
  value.caseName?.bind fun name => all.find? (·.name = name)

end LoadLevel

end Roadmap
