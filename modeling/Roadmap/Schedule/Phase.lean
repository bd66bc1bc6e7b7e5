import Roadmap.Plan.Basic

namespace Roadmap

open Calendar

structure ResolvedPhase where
  project : String
  projectIndex : Nat
  name : String
  start : DateToken
  finish : DateToken
  shares : List Share
  total : Float
  isContinuation : Bool
  deriving DecidableEq

namespace ResolvedPhase

def startDay? (p : ResolvedPhase) : Option Day := p.start.day? .start

def finishDay? (p : ResolvedPhase) : Option Day := p.finish.day? .finish

def days? (p : ResolvedPhase) : Option (Day × Day) := do
  return (← p.startDay?, ← p.finishDay?)

end ResolvedPhase

namespace Phase

/-- A chained phase starts on the day after the phase before it; one that is first starts where it
ends. -/
def resolvedStart (p : Phase) (before : Option DateToken) : DateToken :=
  match p.start, before with
  | some start, _ => start
  | none, some finish => finish.next
  | none, none => p.finish

def resolve (p : Phase) (project : String) (projectIndex : Nat) (before : Option DateToken) :
    ResolvedPhase where
  project := project
  projectIndex := projectIndex
  name := p.name
  start := p.resolvedStart before
  finish := p.finish
  shares := p.shares
  total := p.total
  isContinuation := p.isChained && before.isSome

end Phase

def resolvePhases (project : String) (projectIndex : Nat) :
    Option DateToken → List Phase → List ResolvedPhase
  | _, [] => []
  | before, phase :: rest =>
    phase.resolve project projectIndex before
      :: resolvePhases project projectIndex (some phase.finish) rest

def resolvedPhases (projects : List Project) : List ResolvedPhase :=
  projects.zipIdx.flatMap fun (project, index) =>
    resolvePhases project.name index none project.phases

end Roadmap
