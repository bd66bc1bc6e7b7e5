import Roadmap.Workspace.Collection

namespace Roadmap

inductive StorageError where
  | medium
  | malformed
  deriving DecidableEq, Repr

namespace StorageError

def message : StorageError → String
  | medium => "storage I/O failed"
  | malformed => "malformed workspace data"

def isCorrupt : StorageError → Bool
  | medium => false
  | malformed => true

end StorageError

/-- A call that fails may still have changed the state. -/
structure Storage (σ : Type) where
  load : σ → Except StorageError (Option StoredCollection)
  save : StoredCollection → σ → Except StorageError Unit × σ
  loadLegacy : σ → Except StorageError (Option String)
  clearLegacy : σ → Except StorageError Unit × σ

namespace Storage

variable {σ : Type}

def withoutLegacy (storage : Storage σ) : Storage σ where
  load := storage.load
  save := storage.save
  loadLegacy _ := .ok none
  clearLegacy state := (.ok (), state)

end Storage

namespace Collection

variable {σ : Type}

def save (c : Collection) (storage : Storage σ) (state : σ) : Except StorageError Unit × σ :=
  storage.save c.toStored state

/-- The collection to begin with when none is kept: the legacy document if it can be read, else
the sample. -/
def initial (storage : Storage σ) (config : Config) (stamp : Stamp) (state : σ) : Collection :=
  match storage.loadLegacy state with
  | .ok (some text) => .ofLegacy text config stamp
  | _ => .sample config stamp

def kept? (storage : Storage σ) (config : Config) (state : σ) : Option Collection :=
  match storage.load state with
  | .ok (some stored) => ofStored? stored config
  | _ => none

/-- Loads the kept collection. If there is none, a new one is saved at once, and after that the
legacy document is cleared; a failure to do so is passed over. -/
def load (storage : Storage σ) (config : Config) (stamp : Stamp) (state : σ) : Collection × σ :=
  match kept? storage config state with
  | some c => (c, state)
  | none =>
    let c := initial storage config stamp state
    match c.save storage state with
    | (.ok (), saved) => (c, (storage.clearLegacy saved).2)
    | (.error _, state) => (c, state)

end Collection

end Roadmap
