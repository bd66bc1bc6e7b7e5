import Roadmap.Json.Printer
import Roadmap.Json.Reader
import Roadmap.Json.Workspace
import Roadmap.Storage.Basic

namespace Roadmap

namespace StoredCollection

def parse? (text : String) : Option StoredCollection := (Json.read? text).bind ofJson?

def decode (text : String) : Except StorageError StoredCollection :=
  match parse? text with
  | some stored => .ok stored
  | none => .error .malformed

end StoredCollection

structure Memory where
  blob : Option String
  legacy : Option String
  deriving DecidableEq

namespace Memory

def empty : Memory := ⟨none, none⟩

def storage : Storage Memory where
  load memory :=
    match memory.blob with
    | none => .ok none
    | some text => (StoredCollection.decode text).map some
  save stored memory := (.ok (), { memory with blob := some stored.json.compact })
  loadLegacy memory := .ok memory.legacy
  clearLegacy memory := (.ok (), { memory with legacy := none })

end Memory

end Roadmap
