import Roadmap.Proofs.Storage.Migration
import Roadmap.Proofs.Storage.Reload

namespace Roadmap

inductive Request where
  | load
  | save (stored : StoredCollection)
  | loadLegacy
  | clearLegacy
  | loadCollection (config : Config) (stamp : Stamp)
  | saveCollection (c : Collection)

inductive Reply where
  | kept (result : Except StorageError (Option StoredCollection))
  | done (result : Except StorageError Unit)
  | legacy (result : Except StorageError (Option String))
  | loaded (c : Collection)

def Request.Apart : Request → Prop
  | .save stored => stored.Apart
  | .saveCollection c => c.toStored.Apart
  | _ => True

namespace Storage

variable {σ τ : Type}

def answer (storage : Storage σ) (state : σ) : Request → Reply × σ
  | .load => (.kept (storage.load state), state)
  | .save stored =>
    let (result, later) := storage.save stored state
    (.done result, later)
  | .loadLegacy => (.legacy (storage.loadLegacy state), state)
  | .clearLegacy =>
    let (result, later) := storage.clearLegacy state
    (.done result, later)
  | .loadCollection config stamp =>
    let (c, later) := Collection.load storage config stamp state
    (.loaded c, later)
  | .saveCollection c =>
    let (result, later) := c.save storage state
    (.done result, later)

def run (storage : Storage σ) (state : σ) : List Request → List Reply × σ
  | [] => ([], state)
  | request :: rest =>
    let (reply, later) := storage.answer state request
    let (replies, last) := storage.run later rest
    (reply :: replies, last)

structure Simulates (storage : Storage σ) (storage' : Storage τ) (Related : σ → τ → Prop) :
    Prop where
  load : ∀ {s t}, Related s t → storage.load s = storage'.load t
  save : ∀ {s t} {stored : StoredCollection}, Related s t → stored.Apart →
    (storage.save stored s).1 = (storage'.save stored t).1 ∧
      Related (storage.save stored s).2 (storage'.save stored t).2
  loadLegacy : ∀ {s t}, Related s t → storage.loadLegacy s = storage'.loadLegacy t
  clearLegacy : ∀ {s t}, Related s t →
    (storage.clearLegacy s).1 = (storage'.clearLegacy t).1 ∧
      Related (storage.clearLegacy s).2 (storage'.clearLegacy t).2

namespace Simulates

variable {storage : Storage σ} {storage' : Storage τ} {Related : σ → τ → Prop} {s : σ} {t : τ}

theorem kept? (alike : storage.Simulates storage' Related) (related : Related s t)
    (config : Config) : Collection.kept? storage config s = Collection.kept? storage' config t := by
  rw [Collection.kept?, Collection.kept?, alike.load related]

theorem initial (alike : storage.Simulates storage' Related) (related : Related s t)
    (config : Config) (stamp : Stamp) :
    Collection.initial storage config stamp s = Collection.initial storage' config stamp t := by
  rw [Collection.initial, Collection.initial, alike.loadLegacy related]

theorem loadCollection (alike : storage.Simulates storage' Related) (related : Related s t)
    (config : Config) (stamp : Stamp) :
    (Collection.load storage config stamp s).1 = (Collection.load storage' config stamp t).1 ∧
      Related (Collection.load storage config stamp s).2
        (Collection.load storage' config stamp t).2 := by
  have same := alike.kept? related config
  cases kept : Collection.kept? storage' config t with
  | some c =>
    rw [Collection.load_of_kept (same.trans kept), Collection.load_of_kept kept]
    exact ⟨rfl, related⟩
  | none =>
    have begun := alike.initial related config stamp
    have saving : (Collection.initial storage config stamp s).save storage s =
        storage.save (Collection.initial storage' config stamp t).toStored s := by
      rw [begun]
      rfl
    have saved := alike.save related (Collection.apart_initial storage' config stamp t)
    -- Saving ends alike in both, so of the four cases two cannot be.
    rcases left : storage.save (Collection.initial storage' config stamp t).toStored s
      with ⟨failure | ⟨⟩, later⟩ <;>
    rcases right : storage'.save (Collection.initial storage' config stamp t).toStored t
      with ⟨failure' | ⟨⟩, later'⟩ <;>
    rw [left, right] at saved
    · rw [Collection.load_of_unsaved (same.trans kept) (saving.trans left),
        Collection.load_of_unsaved kept right]
      exact ⟨begun, saved.2⟩
    · cases saved.1
    · cases saved.1
    · rw [Collection.load_of_saved (same.trans kept) (saving.trans left),
        Collection.load_of_saved kept right]
      exact ⟨begun, (alike.clearLegacy saved.2).2⟩

theorem answer (alike : storage.Simulates storage' Related) (related : Related s t)
    {request : Request} (apart : request.Apart) :
    (storage.answer s request).1 = (storage'.answer t request).1 ∧
      Related (storage.answer s request).2 (storage'.answer t request).2 := by
  cases request with
  | load => exact ⟨congrArg Reply.kept (alike.load related), related⟩
  | save stored =>
    obtain ⟨result, later⟩ := alike.save related apart
    exact ⟨congrArg Reply.done result, later⟩
  | loadLegacy => exact ⟨congrArg Reply.legacy (alike.loadLegacy related), related⟩
  | clearLegacy =>
    obtain ⟨result, later⟩ := alike.clearLegacy related
    exact ⟨congrArg Reply.done result, later⟩
  | loadCollection config stamp =>
    obtain ⟨result, later⟩ := alike.loadCollection related config stamp
    exact ⟨congrArg Reply.loaded result, later⟩
  | saveCollection c =>
    obtain ⟨result, later⟩ := alike.save related (show c.toStored.Apart from apart)
    exact ⟨congrArg Reply.done result, later⟩

theorem run (alike : storage.Simulates storage' Related) (related : Related s t)
    {requests : List Request} (apart : ∀ request ∈ requests, request.Apart) :
    (storage.run s requests).1 = (storage'.run t requests).1 ∧
      Related (storage.run s requests).2 (storage'.run t requests).2 := by
  induction requests generalizing s t with
  | nil => exact ⟨rfl, related⟩
  | cons request rest ih =>
    obtain ⟨reply, later⟩ := alike.answer related (apart request List.mem_cons_self)
    obtain ⟨replies, last⟩ := ih later fun other member =>
      apart other (List.mem_cons_of_mem _ member)
    refine ⟨?_, last⟩
    calc (storage.run s (request :: rest)).1
        = (storage.answer s request).1 :: (storage.run (storage.answer s request).2 rest).1 := rfl
      _ = (storage'.answer t request).1 :: (storage'.run (storage'.answer t request).2 rest).1 := by
        rw [reply, replies]
      _ = (storage'.run t (request :: rest)).1 := rfl

end Simulates

end Storage

end Roadmap
