import Roadmap.Header.Document
import Roadmap.Plan.Parser
import Roadmap.Schedule.Person
import Roadmap.Schedule.Window

namespace Roadmap

open Calendar

structure Schedule where
  projects : List Project
  phases : List ResolvedPhase
  persons : List String
  rows : List PersonRow
  window : Window

namespace Schedule

def ofProjects (projects : List Project) (today : Day) : Schedule :=
  let phases := resolvedPhases projects
  { projects := projects
    phases := phases
    persons := personNames projects
    rows := personRows phases
    window := Window.around phases today }

def ofContent (content : String) (today : Day) : Schedule := ofProjects (Plan.parse content) today

def ofDocument (text : String) (today : Day) : Schedule :=
  ofContent (Document.parse text).content today

def phasesOf (s : Schedule) (projectIndex : Nat) : List ResolvedPhase :=
  s.phases.filter (·.projectIndex = projectIndex)

def rowsOf (s : Schedule) (person : String) : List PersonRow := s.rows.filter (·.person = person)

end Schedule

def projectColors : List String :=
  ["60A5FA", "34D399", "FBBF24", "A78BFA", "F472B6", "2DD4BF", "FB923C", "818CF8"]

def colorIndex (projectIndex : Nat) : Nat := projectIndex % projectColors.length

def projectColor (projectIndex : Nat) : String :=
  projectColors.get ⟨colorIndex projectIndex, Nat.mod_lt _ (by decide)⟩

end Roadmap
