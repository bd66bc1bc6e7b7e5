import Roadmap.Plan.Parser
import Roadmap.Decimal.Layout

namespace Roadmap.Plan

open Text

def writeShare (s : Share) : List Char :=
  s.person.toList ++ ' ' :: Decimal.Layout.plain.write s.portion

def writeStart : Option DateToken → List Char
  | none => chained
  | some token => token.text.toList

def writePhase (p : Phase) : List Char :=
  "- ".toList ++ p.name.toList ++ ", ".toList ++ writeStart p.start ++ ", ".toList
    ++ p.finish.text.toList ++ ": ".toList ++ joined ", ".toList (p.shares.map writeShare)

def projectLines (p : Project) : List (List Char) :=
  (p.name.toList ++ [':']) :: p.phases.map writePhase

def writeLines (projects : List Project) : List (List Char) := projects.flatMap projectLines

def write (projects : List Project) : String :=
  String.ofList (joined ['\n'] (writeLines projects))

end Roadmap.Plan
