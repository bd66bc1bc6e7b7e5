import Roadmap.Schedule.Phase

namespace Roadmap

open Calendar

inductive Finding where
  | emptyProjectName
  | duplicateProjectName (project : String)
  | invalidDate (phase project : String) (token : DateToken)
  | endBeforeStart (phase project : String) (finish start : DateToken)
  | unanchoredContinuation (phase project : String)
  deriving DecidableEq

namespace Finding

def message : Finding → String
  | emptyProjectName => "Project header has no name"
  | duplicateProjectName project => "Duplicate project name: " ++ project
  | invalidDate phase project token =>
    "Phase '" ++ phase ++ "' in '" ++ project ++ "' has invalid date '" ++ token.text ++ "'"
  | endBeforeStart phase project finish start =>
    "Phase '" ++ phase ++ "' in '" ++ project ++ "' ends (" ++ finish.text
      ++ ") before it starts (" ++ start.text ++ ")"
  | unanchoredContinuation phase project =>
    "Phase '" ++ phase ++ "' in '" ++ project
      ++ "' continues from nothing; it starts at its end date"

end Finding

def DateToken.isResolvable (t : DateToken) : Bool :=
  (t.day? .start).isSome && (t.day? .finish).isSome

def Phase.tokens (p : Phase) : List DateToken := p.start.toList ++ [p.finish]

namespace Finding

def ofName (name : String) (before : List String) : List Finding :=
  if name = "" then [emptyProjectName]
  else if name ∈ before then [duplicateProjectName name]
  else []

def ofFirstPhase (p : Project) : List Finding :=
  match p.phases with
  | [] => []
  | first :: _ => if first.isChained then [unanchoredContinuation first.name p.name] else []

def ofTokens (project : String) (p : Phase) : List Finding :=
  (p.tokens.filter fun token => !token.isResolvable).map (invalidDate p.name project)

def ofProject (p : Project) (before : List String) : List Finding :=
  ofName p.name before ++ ofFirstPhase p ++ p.phases.flatMap (ofTokens p.name)

def ofProjects : List String → List Project → List Finding
  | _, [] => []
  | before, p :: rest => ofProject p before ++ ofProjects (p.name :: before) rest

def ofResolved (p : ResolvedPhase) : List Finding :=
  match p.startDay?, p.finishDay? with
  | some start, some finish =>
    if finish < start then [endBeforeStart p.name p.project p.finish p.start] else []
  | _, _ => []

end Finding

/-- In the order of the text, but phases that end before they start come last. -/
def findings (projects : List Project) : List Finding :=
  Finding.ofProjects [] projects ++ (resolvedPhases projects).flatMap Finding.ofResolved

end Roadmap
