import Roadmap.Proofs.Workspace.Run
import Roadmap.Storage.FileTree

namespace Roadmap

inductive Call where
  | save (stored : StoredCollection) (done : Bool)
  | clearLegacy
  deriving DecidableEq

namespace Storage

variable {σ : Type}

def recorded (storage : Storage σ) : Storage (σ × List Call) where
  load state := storage.load state.1
  save stored state :=
    let (result, saved) := storage.save stored state.1
    (result, (saved, state.2 ++ [.save stored result.isOk]))
  loadLegacy state := storage.loadLegacy state.1
  clearLegacy state :=
    let (result, cleared) := storage.clearLegacy state.1
    (result, (cleared, state.2 ++ [.clearLegacy]))

end Storage

namespace Collection

variable {σ : Type} (storage : Storage σ) (config : Config) (stamp : Stamp) (state : σ)

def loadCalls : List Call := (load storage.recorded config stamp (state, [])).2.2

/-- A collection holds a document: its only workspace has the document's content and, if there is
one, its header. -/
def Holds (stored : StoredCollection) (document : Document) : Prop :=
  ∃ w, stored = ⟨[w], w.id⟩ ∧ w.content = document.content ∧ ∀ h ∈ document.header, w.header = h

def KeepsLegacy : Prop :=
  .clearLegacy ∈ loadCalls storage config stamp state → storage.loadLegacy state ≠ .ok none →
    ∃ text stored, storage.loadLegacy state = .ok (some text) ∧
      loadCalls storage config stamp state = [.save stored true, .clearLegacy] ∧
      Holds stored (.parse text)

structure LosesLegacy : Prop where
  unkept : kept? storage config state = none
  unread : ∃ e, storage.loadLegacy state = .error e
  saved : ((sample config stamp).save storage state).1 = .ok ()

variable {storage config stamp state}

theorem load_of_kept {c : Collection} (kept : kept? storage config state = some c) :
    load storage config stamp state = (c, state) := by
  rw [load, kept]

theorem load_of_saved {saved : σ} (unkept : kept? storage config state = none)
    (done : (initial storage config stamp state).save storage state = (.ok (), saved)) :
    load storage config stamp state =
      (initial storage config stamp state, (storage.clearLegacy saved).2) := by
  rw [load, unkept]
  simp only [done]

theorem load_of_unsaved {saved : σ} {e : StorageError} (unkept : kept? storage config state = none)
    (failed : (initial storage config stamp state).save storage state = (.error e, saved)) :
    load storage config stamp state = (initial storage config stamp state, saved) := by
  rw [load, unkept]
  simp only [failed]

theorem kept?_recorded (calls : List Call) :
    kept? storage.recorded config (state, calls) = kept? storage config state := rfl

theorem save_recorded {c : Collection} {result : Except StorageError Unit} {saved : σ}
    (same : c.save storage state = (result, saved)) (calls : List Call) :
    c.save storage.recorded (state, calls) =
      (result, (saved, calls ++ [.save c.toStored result.isOk])) := by
  rw [save] at same
  simp only [save, Storage.recorded, same]

theorem loadCalls_of_kept {c : Collection} (kept : kept? storage config state = some c) :
    loadCalls storage config stamp state = [] := by
  rw [loadCalls, load_of_kept ((kept?_recorded []).trans kept)]

theorem loadCalls_of_saved {saved : σ} (unkept : kept? storage config state = none)
    (done : (initial storage config stamp state).save storage state = (.ok (), saved)) :
    loadCalls storage config stamp state =
      [.save (initial storage config stamp state).toStored true, .clearLegacy] := by
  rw [loadCalls, load_of_saved ((kept?_recorded []).trans unkept) (save_recorded done [])]
  rfl

theorem loadCalls_of_unsaved {saved : σ} {e : StorageError}
    (unkept : kept? storage config state = none)
    (failed : (initial storage config stamp state).save storage state = (.error e, saved)) :
    loadCalls storage config stamp state =
      [.save (initial storage config stamp state).toStored false] := by
  rw [loadCalls, load_of_unsaved ((kept?_recorded []).trans unkept) (save_recorded failed [])]
  rfl

theorem load_recorded (storage : Storage σ) (config : Config) (stamp : Stamp) (state : σ) :
    (load storage.recorded config stamp (state, [])).1 = (load storage config stamp state).1 ∧
      (load storage.recorded config stamp (state, [])).2.1 =
        (load storage config stamp state).2 := by
  cases kept : kept? storage config state with
  | some c =>
    rw [load_of_kept kept, load_of_kept ((kept?_recorded []).trans kept)]
    exact ⟨rfl, rfl⟩
  | none =>
    have unkept := (kept?_recorded []).trans kept
    rcases same : (initial storage config stamp state).save storage state with ⟨_ | _, saved⟩
    · rw [load_of_unsaved kept same, load_of_unsaved unkept (save_recorded same [])]
      exact ⟨rfl, rfl⟩
    · rw [load_of_saved kept same, load_of_saved unkept (save_recorded same [])]
      exact ⟨rfl, rfl⟩

theorem loadCalls_of_cleared (cleared : .clearLegacy ∈ loadCalls storage config stamp state) :
    kept? storage config state = none ∧
      ((initial storage config stamp state).save storage state).1 = .ok () ∧
      loadCalls storage config stamp state =
        [.save (initial storage config stamp state).toStored true, .clearLegacy] := by
  cases kept : kept? storage config state with
  | some c => simp [loadCalls_of_kept kept] at cleared
  | none =>
    rcases same : (initial storage config stamp state).save storage state with ⟨_ | _, saved⟩
    · simp [loadCalls_of_unsaved kept same] at cleared
    · exact ⟨rfl, rfl, loadCalls_of_saved kept same⟩

theorem holds_ofLegacy (text : String) :
    Holds (ofLegacy text config stamp).toStored (.parse text) := by
  refine ⟨_, rfl, rfl, fun h read => ?_⟩
  rw [Option.mem_def] at read
  simp [Workspace.new, read]

theorem initial_of_read {text : String} (read : storage.loadLegacy state = .ok (some text)) :
    initial storage config stamp state = ofLegacy text config stamp := by
  rw [initial, read]

theorem initial_of_unread {e : StorageError} (unread : storage.loadLegacy state = .error e) :
    initial storage config stamp state = sample config stamp := by
  rw [initial, unread]

theorem not_keepsLegacy (loses : LosesLegacy storage config stamp state) :
    ¬ KeepsLegacy storage config stamp state := by
  obtain ⟨e, unread⟩ := loses.unread
  have done : (initial storage config stamp state).save storage state =
      (.ok (), ((initial storage config stamp state).save storage state).2) := by
    rw [initial_of_unread unread, ← loses.saved]
  have cleared : .clearLegacy ∈ loadCalls storage config stamp state := by
    simp [loadCalls_of_saved loses.unkept done]
  intro keeps
  obtain ⟨text, stored, read, -⟩ := keeps cleared (by simp [unread])
  rw [unread] at read
  cases read

theorem keepsLegacy_of_not_losesLegacy (safe : ¬ LosesLegacy storage config stamp state) :
    KeepsLegacy storage config stamp state := by
  intro cleared present
  obtain ⟨unkept, saved, calls⟩ := loadCalls_of_cleared cleared
  cases legacy : storage.loadLegacy state with
  | error e =>
    -- What was saved is the sample, and that is how a document is lost.
    rw [initial_of_unread legacy] at saved
    exact absurd ⟨unkept, ⟨e, legacy⟩, saved⟩ safe
  | ok text? =>
    cases text? with
    | none => exact absurd legacy present
    | some text =>
      refine ⟨text, _, rfl, calls, ?_⟩
      rw [initial_of_read legacy]
      exact holds_ofLegacy text

/-- Unless the storage answers that there is none, a legacy document is lost in exactly one way:
nothing is kept, it cannot be read, and the sample is saved in its stead. -/
theorem keepsLegacy_iff (storage : Storage σ) (config : Config) (stamp : Stamp) (state : σ) :
    KeepsLegacy storage config stamp state ↔ ¬ LosesLegacy storage config stamp state :=
  ⟨fun keeps loses => not_keepsLegacy loses keeps, keepsLegacy_of_not_losesLegacy⟩

def twoFiles : Storage FileTree :=
  FileTree.storage ⟨["w.json"], 4095⟩ (some ⟨["old.txt"], 4095⟩)

def unreadable : FileTree := .directory [("old.txt", .file none)]

/-- A legacy document that is not a text is removed, and the sample is kept in its stead. -/
theorem not_keepsLegacy_unreadable :
    ¬ KeepsLegacy twoFiles .standard (.newYear 1) unreadable ∧
      twoFiles.loadLegacy unreadable = .error .medium ∧
      (load twoFiles .standard (.newYear 1) unreadable).1 = sample .standard (.newYear 1) ∧
      twoFiles.loadLegacy (load twoFiles .standard (.newYear 1) unreadable).2 = .ok none := by
  have loses : LosesLegacy twoFiles .standard (.newYear 1) unreadable :=
    ⟨rfl, ⟨.medium, rfl⟩, rfl⟩
  refine ⟨not_keepsLegacy loses, rfl, ?_, ?_⟩
  · rfl
  · rfl

end Collection

end Roadmap
