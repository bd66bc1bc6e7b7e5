import Roadmap.Json.Record
import Roadmap.Workspace.Collection

namespace Roadmap

open Json

namespace Header

def knownMember (key : String) (value : Option String) : List (String × Json) :=
  value.toList.map fun value => (key, .text value)

def json (h : Header) : Json :=
  .record
    (("name", .text h.name) :: knownMember "gist" h.gist ++ knownMember "description" h.description
      ++ knownMember "createdAt" h.createdAt
      ++ h.extra.entries.map fun (key, value) => (key, .text value))

def ofMembers? (members : List (String × Json)) : Option Header := do
  let extra ← (members.filter fun (key, _) => key ∉ knownKeys).mapM fun (key, value) =>
    value.text?.map (key, ·)
  return {
    name := ← required text? (← member? members "name")
    gist := ← optional text? (← member? members "gist")
    description := ← optional text? (← member? members "description")
    createdAt := ← optional text? (← member? members "createdAt")
    extra := Fields.ofList extra }

def ofJson? : Json → Option Header
  | .obj members => (namedMembers? members).bind ofMembers?
  | _ => none

end Header

namespace Identity

def json (id : Identity) : Json := .text id.toString

def ofJson? (value : Json) : Option Identity := value.text?.bind parse?

end Identity

namespace Timestamp

def json (t : Timestamp) : Json := .text t.toString

def ofJson? (value : Json) : Option Timestamp := value.text?.bind parse?

end Timestamp

namespace Workspace

def json (w : Workspace) : Json :=
  .record
    [("id", w.id.json),
     ("frontmatter", w.header.json),
     ("content", .text w.content),
     ("updatedAt", w.updatedAt.json)]

def ofJson? (value : Json) : Option Workspace :=
  match value.fields? ["id", "frontmatter", "content", "updatedAt"] with
  | some [id, header, content, updatedAt] =>
    return {
      id := ← required Identity.ofJson? id
      header := ← required Header.ofJson? header
      content := ← required text? content
      updatedAt := ← required Timestamp.ofJson? updatedAt }
  | _ => none

end Workspace

namespace StoredCollection

def json (c : StoredCollection) : Json :=
  .record [("workspaces", .arr (c.workspaces.map Workspace.json)), ("currentId", c.currentId.json)]

def ofJson? (value : Json) : Option StoredCollection :=
  match value.fields? ["workspaces", "currentId"] with
  | some [workspaces, currentId] =>
    return {
      workspaces := ← required (list? Workspace.ofJson?) workspaces
      currentId := ← required Identity.ofJson? currentId }
  | _ => none

end StoredCollection

namespace Config

def fieldNames : List String :=
  ["defaultName", "sharedName", "legacyName", "sampleName", "sampleContent"]

def json (c : Config) : Json :=
  .record
    [("defaultName", .text c.defaultName),
     ("sharedName", .text c.sharedName),
     ("legacyName", .text c.legacyName),
     ("sampleName", .text c.sampleName),
     ("sampleContent", .text c.sampleContent)]

def fields? : Json → Option (List (Option Json))
  | .obj members => objectFields? fieldNames members
  | .arr items =>
    if items.length ≤ fieldNames.length then
      some (items.map some ++ List.replicate (fieldNames.length - items.length) none)
    else none
  | _ => none

def ofJson? (value : Json) : Option Config :=
  match fields? value with
  | some [defaultName, sharedName, legacyName, sampleName, sampleContent] =>
    return {
      defaultName := ← orElse standard.defaultName text? defaultName
      sharedName := ← orElse standard.sharedName text? sharedName
      legacyName := ← orElse standard.legacyName text? legacyName
      sampleName := ← orElse standard.sampleName text? sampleName
      sampleContent := ← orElse standard.sampleContent text? sampleContent }
  | _ => none

end Config

namespace Resolution

def name : Resolution → String
  | .overwrite => "overwrite"
  | .rename => "rename"
  | .cancel => "cancel"

def all : List Resolution := [.overwrite, .rename, .cancel]

def json (r : Resolution) : Json := .text r.name

def ofJson? (value : Json) : Option Resolution :=
  value.caseName?.bind fun name => all.find? (·.name = name)

end Resolution

end Roadmap
