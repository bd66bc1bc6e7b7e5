import Roadmap.Json.Record
import Roadmap.Plan.Basic

namespace Roadmap

open Json

def DateToken.json (t : DateToken) : Json := .text t.text

def DateToken.ofJson? (value : Json) : Option DateToken := value.text?.map DateToken.mk

namespace Share

def json (s : Share) : Json :=
  .record [("person", .text s.person), ("percentage", .float s.portion)]

def ofJson? (value : Json) : Option Share :=
  match value.fields? ["person", "percentage"] with
  | some [person, portion] =>
    return { person := ← required text? person, portion := ← required float? portion }
  | _ => none

end Share

namespace Phase

def json (p : Phase) : Json :=
  .record
    [("name", .text p.name),
     ("startDate", orNull DateToken.json p.start),
     ("endDate", p.finish.json),
     ("assignments", .arr (p.shares.map Share.json))]

def ofJson? (value : Json) : Option Phase :=
  match value.fields? ["name", "startDate", "endDate", "assignments"] with
  | some [name, start, finish, shares] =>
    return {
      name := ← required text? name
      start := ← optional DateToken.ofJson? start
      finish := ← required DateToken.ofJson? finish
      shares := ← required (list? Share.ofJson?) shares }
  | _ => none

end Phase

namespace Project

def json (p : Project) : Json :=
  .record [("name", .text p.name), ("phases", .arr (p.phases.map Phase.json))]

def ofJson? (value : Json) : Option Project :=
  match value.fields? ["name", "phases"] with
  | some [name, phases] =>
    return { name := ← required text? name, phases := ← required (list? Phase.ofJson?) phases }
  | _ => none

end Project

end Roadmap
