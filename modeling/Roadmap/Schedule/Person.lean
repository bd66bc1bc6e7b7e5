import Roadmap.Schedule.Phase

namespace Roadmap

open Calendar

structure PersonRow where
  person : String
  project : String
  projectIndex : Nat
  phase : String
  start : DateToken
  finish : DateToken
  portion : Float
  isContinuation : Bool
  deriving DecidableEq

namespace PersonRow

def startDay? (r : PersonRow) : Option Day := r.start.day? .start

def finishDay? (r : PersonRow) : Option Day := r.finish.day? .finish

def days? (r : PersonRow) : Option (Day × Day) := do
  return (← r.startDay?, ← r.finishDay?)

/-- Covers a day of the range; a row without both days covers none. -/
def overlaps (r : PersonRow) (first last : Day) : Bool :=
  match r.startDay?, r.finishDay? with
  | some start, some finish => start ≤ last && first ≤ finish
  | _, _ => false

end PersonRow

def ResolvedPhase.rows (p : ResolvedPhase) : List PersonRow :=
  p.shares.map fun share =>
    { person := share.person
      project := p.project
      projectIndex := p.projectIndex
      phase := p.name
      start := p.start
      finish := p.finish
      portion := share.portion
      isContinuation := p.isContinuation }

def personRows (phases : List ResolvedPhase) : List PersonRow := phases.flatMap ResolvedPhase.rows

def insertName (name : String) : List String → List String
  | [] => [name]
  | first :: rest =>
    if name < first then name :: first :: rest
    else if name = first then first :: rest
    else first :: insertName name rest

def personNames (projects : List Project) : List String :=
  (projects.flatMap fun p => p.phases.flatMap fun phase => phase.shares.map Share.person).foldl
    (fun names name => insertName name names) []

end Roadmap
