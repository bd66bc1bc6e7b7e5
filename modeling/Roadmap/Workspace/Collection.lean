import Roadmap.Header.UniqueName
import Roadmap.Workspace.Basic

namespace Roadmap

structure Collection where
  workspaces : List Workspace
  currentId : Identity
  config : Config
  deriving DecidableEq

structure StoredCollection where
  workspaces : List Workspace
  currentId : Identity
  deriving DecidableEq

inductive Resolution where
  | overwrite
  | rename
  | cancel
  deriving DecidableEq, Repr

inductive ImportOutcome where
  | imported (id : Identity)
  | conflict (name : String)
  | cancelled
  deriving DecidableEq

namespace Collection

def ids (c : Collection) : List Identity := c.workspaces.map Workspace.id

def names (c : Collection) : List String := c.workspaces.map Workspace.name

def Sound (c : Collection) : Prop := c.currentId ∈ c.ids

instance (c : Collection) : Decidable c.Sound := by unfold Sound; infer_instance

def single (w : Workspace) (config : Config) : Collection := ⟨[w], w.id, config⟩

def sample (config : Config) (stamp : Stamp) : Collection :=
  let header := (Header.named config.sampleName).withCreatedAt stamp.today
  single (.new header config.sampleContent stamp) config

/-- Takes up a kept collection. The first workspace becomes current if the current one is missing;
an empty collection cannot be taken up. -/
def ofStored? (stored : StoredCollection) (config : Config) : Option Collection :=
  stored.workspaces.head?.map fun first =>
    let isKnown := stored.workspaces.any (·.id = stored.currentId)
    ⟨stored.workspaces, if isKnown then stored.currentId else first.id, config⟩

def toStored (c : Collection) : StoredCollection := ⟨c.workspaces, c.currentId⟩

def ofLegacy (text : String) (config : Config) (stamp : Stamp) : Collection :=
  let document := Document.parse text
  single (.new (document.header.getD (.named config.legacyName)) document.content stamp) config

def get? (c : Collection) (id : Identity) : Option Workspace := c.workspaces.find? (·.id = id)

def currentIndex (c : Collection) : Nat := (c.workspaces.findIdx? (·.id = c.currentId)).getD 0

def current? (c : Collection) : Option Workspace := c.workspaces[c.currentIndex]?

def add (c : Collection) (w : Workspace) : Collection :=
  { c with workspaces := c.workspaces ++ [w], currentId := w.id }

def create (c : Collection) (name : Option String) (stamp : Stamp) : Collection :=
  let name := uniqueName (name.getD c.config.defaultName) c.names
  c.add (.new ((Header.named name).withCreatedAt stamp.today) "" stamp)

def delete (c : Collection) (id : Identity) : Collection × Bool :=
  if id ∈ c.ids ∧ 1 < c.workspaces.length then
    let remaining := c.workspaces.eraseP (·.id = id)
    let currentId :=
      if c.currentId = id then (remaining.head?.map Workspace.id).getD id else c.currentId
    ({ c with workspaces := remaining, currentId := currentId }, true)
  else (c, false)

def switch (c : Collection) (id : Identity) : Collection × Bool :=
  if id ∈ c.ids then ({ c with currentId := id }, true) else (c, false)

def updateCurrent (c : Collection) (change : Workspace → Workspace) : Collection :=
  { c with workspaces := c.workspaces.modify c.currentIndex change }

/-- Replaces the current document. A text without a header replaces the content only. -/
def updateRaw (c : Collection) (text : String) (time : Timestamp) : Collection :=
  let document := Document.parse text
  c.updateCurrent fun w =>
    { w with
      header := document.header.getD w.header
      content := document.content
      updatedAt := time }

def updateContent (c : Collection) (content : String) (time : Timestamp) : Collection :=
  c.updateCurrent fun w => { w with content := content, updatedAt := time }

def updateProjects (c : Collection) (projects : List Project) (time : Timestamp) : Collection :=
  c.updateContent (Plan.write projects) time

def currentRawText (c : Collection) : String := (c.current?.map Workspace.rawText).getD ""

def currentContent (c : Collection) : String := (c.current?.map Workspace.content).getD ""

end Collection

end Roadmap
