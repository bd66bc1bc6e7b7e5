import Roadmap.Workspace.Collection

namespace Roadmap.Collection

def incomingName (c : Collection) (document : Document) : String :=
  (document.header.map Header.name).getD c.config.sharedName

/-- Puts a document in the place of the first workspace of that name, which keeps its identity and
becomes current. -/
def overwrite (c : Collection) (existing : Workspace) (name : String) (document : Document)
    (time : Timestamp) : Collection :=
  let replace := fun (w : Workspace) =>
    { w with
      header := document.header.getD (.named name)
      content := document.content
      updatedAt := time }
  { c with
    workspaces := c.workspaces.modify (c.workspaces.findIdx (·.name = name)) replace
    currentId := existing.id }

def addDocument (c : Collection) (name : String) (document : Document) (stamp : Stamp) :
    Collection :=
  let header := { document.header.getD (.named "") with name := name }
  c.add (.new header document.content stamp)

def overwritten? (c : Collection) (resolution : Option Resolution) (name : String) :
    Option Workspace :=
  if resolution = some .overwrite ∧ name ∈ c.names then c.workspaces.find? (·.name = name)
  else none

def finalName (c : Collection) (resolution : Option Resolution) (name : String) : String :=
  if resolution = some .rename ∧ name ∈ c.names then uniqueName name c.names else name

def importShared (c : Collection) (text : String) (resolution : Option Resolution) (stamp : Stamp) :
    Collection × ImportOutcome :=
  let document := Document.parse text
  let name := c.incomingName document
  if resolution = none ∧ name ∈ c.names then (c, .conflict name)
  else if resolution = some .cancel then (c, .cancelled)
  else
    match c.overwritten? resolution name with
    | some existing =>
      (c.overwrite existing name document stamp.time, .imported existing.id)
    | none => (c.addDocument (c.finalName resolution name) document stamp, .imported stamp.id)

end Roadmap.Collection
