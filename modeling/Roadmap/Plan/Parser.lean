import Roadmap.Plan.Basic
import Roadmap.Text.Split

namespace Roadmap.Plan

open Text

def chained : List Char := "--".toList

def portion? (text : List Char) : Option Float :=
  if text.all fun c => c.isDigit || c = '.' then
    let whole := text.takeWhile Char.isDigit
    let number :=
      match text.dropWhile Char.isDigit with
      | '.' :: rest => whole ++ '.' :: rest.takeWhile Char.isDigit
      | _ => whole
    (Decimal.unsigned? number).filter Decimal.isFinite
  else none

def lastWord (text : List Char) : List Char × List Char :=
  let word := (text.reverse.takeWhile fun c => !isBlank c).reverse
  (trimEnd (text.take (text.length - word.length)), word)

def share? (entry : List Char) : Option Share :=
  let (person, number) := lastWord (trim entry)
  if person.isEmpty then none
  else (portion? number).map fun portion => ⟨String.ofList person, portion⟩

def shares (text : List Char) : List Share := (pieces ',' text).filterMap share?

def fields? (head : List Char) : Option (List Char × List Char × List Char) := do
  let (name, rest) ← cut ',' head
  let (start, finish) ← cut ',' rest
  if name.isEmpty || start.isEmpty || finish.isEmpty then none else some (name, start, finish)

def phase? (text : List Char) : Option Phase := do
  let (head, tail) ← cut ':' text
  let (name, start, finish) ← fields? (trim head)
  let start := trim start
  return {
    name := String.ofList (trim name)
    start := if start = chained then none else some ⟨String.ofList start⟩
    finish := ⟨String.ofList (trim finish)⟩
    shares := shares tail }

inductive Line where
  | heading (name : String)
  | phase (phase : Phase)
  deriving DecidableEq

def Line.ofText? (text : List Char) : Option Line :=
  match trim text with
  | [] => none
  | '-' :: rest => (phase? (trim rest)).map .phase
  | other =>
    if other.getLast? = some ':' then some (.heading (String.ofList (trim other.dropLast)))
    else none

/-- The phases before the first heading, and the projects from there on. -/
def assemble : List Line → List Phase × List Project
  | [] => ([], [])
  | .heading name :: rest => let (own, projects) := assemble rest; ([], ⟨name, own⟩ :: projects)
  | .phase phase :: rest => let (own, projects) := assemble rest; (phase :: own, projects)

def meaningful (text : List Char) : List Line := (pieces '\n' text).filterMap Line.ofText?

/-- A line that ends in a colon opens a project, and one that starts with a dash is a phase of the
project opened last, if any. What fits neither form is passed over. -/
def parse (text : String) : List Project := (assemble (meaningful text.toList)).2

end Roadmap.Plan
