import Roadmap.Proofs.Header.RoundTrip
import Roadmap.Proofs.Json.Workspace
import Roadmap.Proofs.Workspace.Current
import Roadmap.Storage.Memory

namespace Roadmap

namespace StoredCollection

theorem decode_compact {stored : StoredCollection} (apart : stored.Apart) :
    decode stored.json.compact = .ok stored := by
  rw [decode, parse?, Json.read?_compact stored.textual_json, Option.bind_some, ofJson?_json apart]

end StoredCollection

namespace Memory

def keeping (memory : Memory) (stored : StoredCollection) : Memory :=
  { memory with blob := some stored.json.compact }

theorem save_eq (stored : StoredCollection) (memory : Memory) :
    storage.save stored memory = (.ok (), memory.keeping stored) := rfl

theorem load_keeping {stored : StoredCollection} (apart : stored.Apart) (memory : Memory) :
    storage.load (memory.keeping stored) = .ok (some stored) := by
  simp only [storage, keeping, StoredCollection.decode_compact apart]
  rfl

end Memory

namespace Collection

theorem ofStored?_of_known {stored : StoredCollection}
    (known : stored.currentId ∈ stored.workspaces.map Workspace.id) (config : Config) :
    ofStored? stored config = some ⟨stored.workspaces, stored.currentId, config⟩ := by
  obtain ⟨w, member, same⟩ := List.mem_map.1 known
  obtain ⟨first, others, shape⟩ := List.exists_cons_of_ne_nil (List.ne_nil_of_mem member)
  have found : stored.workspaces.any (·.id = stored.currentId) = true :=
    List.any_eq_true.2 ⟨w, member, by simpa using same⟩
  rw [ofStored?]
  simp only [found, if_true]
  rw [shape]
  rfl

theorem ofStored?_congr {stored : StoredCollection} {config : Config} {c : Collection}
    (taken : ofStored? stored config = some c) (other : Config) :
    ofStored? stored other = some { c with config := other } := by
  obtain ⟨first, head, rfl⟩ := Option.map_eq_some_iff.1 taken
  rw [ofStored?, head]
  rfl

theorem kept?_congr {σ : Type} {storage : Storage σ} {config : Config} {state : σ} {c : Collection}
    (kept : kept? storage config state = some c) (other : Config) :
    kept? storage other state = some { c with config := other } := by
  unfold kept? at kept ⊢
  split at kept
  · exact ofStored?_congr kept other
  · cases kept

theorem apart_single {w : Workspace} (plain : w.header.Plain) (config : Config) :
    (single w config).toStored.Apart := by
  intro other member
  rw [List.mem_singleton.1 member]
  exact plain.apart

theorem plain_getD_parse (text name : String) :
    ((Document.parse text).header.getD (.named name)).Plain := by
  cases read : (Document.parse text).header with
  | none => exact Document.plain_named name
  | some h => exact (Document.writable_of_parse read).plain

theorem apart_initial {σ : Type} (storage : Storage σ) (config : Config) (stamp : Stamp)
    (state : σ) : (initial storage config stamp state).toStored.Apart := by
  unfold initial
  split
  · exact apart_single (plain_getD_parse _ _) config
  · exact apart_single (Document.plain_named config.sampleName) config

theorem kept?_keeping {stored : StoredCollection} (apart : stored.Apart)
    (known : stored.currentId ∈ stored.workspaces.map Workspace.id) (config : Config)
    (memory : Memory) :
    kept? Memory.storage config (memory.keeping stored) =
      some ⟨stored.workspaces, stored.currentId, config⟩ := by
  rw [kept?, Memory.load_keeping apart]
  exact ofStored?_of_known known config

theorem load_keeping {stored : StoredCollection} (apart : stored.Apart)
    (known : stored.currentId ∈ stored.workspaces.map Workspace.id) (config : Config)
    (stamp : Stamp) (memory : Memory) :
    load Memory.storage config stamp (memory.keeping stored) =
      (⟨stored.workspaces, stored.currentId, config⟩, memory.keeping stored) :=
  load_of_kept (kept?_keeping apart known config memory)

theorem kept?_load (config other : Config) (stamp : Stamp) (memory : Memory) :
    kept? Memory.storage other (load Memory.storage config stamp memory).2 =
      some { (load Memory.storage config stamp memory).1 with config := other } := by
  cases kept : kept? Memory.storage config memory with
  | some c =>
    rw [load_of_kept kept]
    exact kept?_congr kept other
  | none =>
    have saved := Memory.save_eq (initial Memory.storage config stamp memory).toStored memory
    rw [load_of_saved kept saved]
    exact kept?_keeping (apart_initial _ config stamp memory) (sound_initial _ config stamp memory)
      other { memory with legacy := none }

theorem load_load (config other : Config) (stamp later : Stamp) (memory : Memory) :
    load Memory.storage other later (load Memory.storage config stamp memory).2 =
      ({ (load Memory.storage config stamp memory).1 with config := other },
        (load Memory.storage config stamp memory).2) :=
  load_of_kept (kept?_load config other stamp memory)

/-- What is saved is loaded as it was, down to empty values and the order of the fields; it is taken
up with its current workspace, and loading leaves it alone. Whatever a memory held, loading it again
changes nothing. -/
theorem load_save_memory :
    (∀ (stored : StoredCollection) (memory : Memory), stored.Apart →
      (Memory.storage.save stored memory).1 = .ok () ∧
      Memory.storage.load (Memory.storage.save stored memory).2 = .ok (some stored)) ∧
    (∀ (stored : StoredCollection) (memory : Memory), stored.Apart →
      stored.currentId ∈ stored.workspaces.map Workspace.id → ∀ config stamp,
      load Memory.storage config stamp (Memory.storage.save stored memory).2 =
        (⟨stored.workspaces, stored.currentId, config⟩, (Memory.storage.save stored memory).2)) ∧
    ∀ (memory : Memory) (config other : Config) (stamp later : Stamp),
      load Memory.storage other later (load Memory.storage config stamp memory).2 =
        ({ (load Memory.storage config stamp memory).1 with config := other },
          (load Memory.storage config stamp memory).2) := by
  refine ⟨fun stored memory apart => ⟨rfl, ?_⟩, fun stored memory apart known config stamp => ?_,
    fun memory config other stamp later => load_load config other stamp later memory⟩
  · exact Memory.load_keeping apart memory
  · exact load_keeping apart known config stamp memory

/-- Two workspaces, the second of them current, with values that are empty and fields in no
particular order. -/
def shelf : StoredCollection :=
  ⟨[.new
      ⟨"", some "", none, some "\"\\ \x00", ⟨[("owner", ""), ("", "b"), ("area", "a")], by decide⟩⟩
      "A:\n" (.newYear 1),
    .new (.named "B") "" (.newYear 2)], .ofNat 2⟩

theorem load_save_shelf :
    shelf.Apart ∧ shelf.currentId ∈ shelf.workspaces.map Workspace.id ∧
      Memory.storage.load (Memory.storage.save shelf .empty).2 = .ok (some shelf) ∧
      (load Memory.storage .standard (.newYear 3) (Memory.storage.save shelf .empty).2).1 =
        ⟨shelf.workspaces, .ofNat 2, .standard⟩ := by
  have apart : shelf.Apart := by decide
  have known : shelf.currentId ∈ shelf.workspaces.map Workspace.id := by decide
  refine ⟨apart, known, (load_save_memory.1 shelf .empty apart).2, ?_⟩
  rw [load_save_memory.2.1 shelf .empty apart known .standard (.newYear 3)]
  rfl

end Collection

end Roadmap
