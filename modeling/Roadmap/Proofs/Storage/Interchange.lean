import Roadmap.Proofs.Storage.Saving
import Roadmap.Proofs.Storage.Simulation

namespace Roadmap

namespace FileTree

open Roadmap.Path

/-- The two paths lead to different files, and one that leads to nothing is not made to lead
anywhere by making the directories for the other. -/
structure Separate (tree : FileTree) (path legacy : Path) : Prop where
  differ : legacy.place ≠ path.place
  closed : tree.readText legacy = .ok none →
    (tree.makeDirectories path.parent).2.readText legacy = .ok none

structure Hosts (tree : FileTree) (path : Path) (legacyPath : Option Path) : Prop where
  proper : tree.Proper
  saves : ∀ text, (tree.save path text).1 = .ok ()
  separate : ∀ legacy ∈ legacyPath, tree.Separate path legacy

theorem separate_of_made {tree : FileTree} {path legacy : Path} (proper : tree.Proper)
    (admits : tree.Admits path) (made : ∀ place ∈ path.way, tree.look place = some .directory)
    (differ : legacy.place ≠ path.place) : tree.Separate path legacy := by
  refine ⟨differ, fun read => ?_⟩
  obtain ⟨same, way, -, stands⟩ := makeDirectories_of_admits proper admits
  rw [way, readText_congr _ legacy, read]
  intro place
  rw [stands]
  split
  · next among => exact (made place among).symm
  · rfl

section Hosts

variable {tree : FileTree} {path : Path} {legacyPath : Option Path}

theorem readText_made {text? : Option String} (proper : tree.Proper) (admits : tree.Admits path)
    {legacy : Path} (separate : tree.Separate path legacy)
    (read : tree.readText legacy = .ok text?) :
    (tree.makeDirectories path.parent).2.readText legacy = .ok text? := by
  cases text? with
  | none => exact separate.closed read
  | some text =>
    obtain ⟨made, way, -, stands⟩ := makeDirectories_of_admits proper admits
    rw [way]
    exact readText_mono proper (more_of_admits admits stands) read

theorem readText_save (proper : tree.Proper) (admits : tree.Admits path) {legacy : Path}
    (differ : legacy.place ≠ path.place) (text : String) :
    (tree.save path (some text)).2.readText legacy =
      (tree.makeDirectories path.parent).2.readText legacy := by
  obtain ⟨made, way, proper', stands⟩ := makeDirectories_of_admits proper admits
  obtain ⟨saved, done, -, stands'⟩ := save_of_admits proper admits (some text)
  have file : saved.look path.place = some (.file (some text)) := by
    rw [stands', if_pos rfl]
  have agree : AgreeOff path.place made saved := by
    refine ⟨?_, by simp [file], fun place other => ?_⟩
    · rw [stands, if_neg admits.free.1]
      exact admits.free.2
    · rw [stands, stands', if_neg other]
  rw [way, done]
  exact (agree.readText proper' differ).symm

theorem hosts_of_admits (proper : tree.Proper) (admits : tree.Admits path)
    (separate : ∀ legacy ∈ legacyPath, tree.Separate path legacy) :
    tree.Hosts path legacyPath := by
  refine ⟨proper, fun text => ?_, separate⟩
  obtain ⟨saved, done, -⟩ := save_of_admits proper admits text
  rw [done]

theorem Hosts.save (hosts : tree.Hosts path legacyPath) (text : String) :
    ∃ saved, tree.save path (some text) = (.ok (), saved) ∧ saved.Hosts path legacyPath ∧
      saved.readText path = .ok (some text) ∧
      ∀ legacy ∈ legacyPath, ∀ text?, tree.readText legacy = .ok text? →
        saved.readText legacy = .ok text? := by
  have admits := admits_of_save hosts.proper (hosts.saves none)
  obtain ⟨saved, done, proper', stands'⟩ := save_of_admits hosts.proper admits (some text)
  have file : saved.look path.place = some (.file (some text)) := by
    rw [stands', if_pos rfl]
  have directories : ∀ place ∈ path.way, saved.look place = some .directory := by
    intro place among
    have other : place ≠ path.place := fun same => admits.free.1 (same ▸ among)
    rw [stands', if_neg other, if_pos among]
  have admits' : saved.Admits path :=
    ⟨admits.usable, admits.named, fun place among => .inl (directories place among),
      admits.free.1, by simp [file]⟩
  have kept : ∀ legacy ∈ legacyPath, ∀ text?, tree.readText legacy = .ok text? →
      saved.readText legacy = .ok text? := by
    intro legacy member text? read
    have separate := hosts.separate legacy member
    have through := readText_made hosts.proper admits separate read
    rwa [← readText_save hosts.proper admits separate.differ text, done] at through
  have separate : ∀ legacy ∈ legacyPath, saved.Separate path legacy := fun legacy member =>
    separate_of_made proper' admits' directories (hosts.separate legacy member).differ
  exact ⟨saved, done, hosts_of_admits proper' admits' separate,
    readText_of_file proper' admits' directories file, kept⟩

theorem Hosts.clear {legacy : Path} (hosts : tree.Hosts path (some legacy)) {text? : Option String}
    (read : tree.readText legacy = .ok text?) :
    ∃ cleared, tree.clear legacy = (.ok (), cleared) ∧ cleared.Hosts path (some legacy) ∧
      cleared.readText legacy = .ok none ∧ cleared.readText path = tree.readText path := by
  obtain ⟨cleared, done, ⟨rfl, rfl⟩ | ⟨text, rfl, file, proper, stands⟩⟩ :=
    clear_cases hosts.proper read
  · exact ⟨cleared, done, hosts, read, rfl⟩
  · have admits := admits_of_save hosts.proper (hosts.saves none)
    have differ := (hosts.separate legacy rfl).differ
    have absent : cleared.look legacy.place = none := by rw [stands, if_pos rfl]
    -- The document is a file, so no directory that a later saving makes can be in its place.
    have offWay := not_mem_way_of_file admits file
    have agree : AgreeOff legacy.place tree cleared := by
      refine ⟨by simp [file], by simp [absent], fun place other => ?_⟩
      rw [stands, if_neg other]
    have admits' : cleared.Admits path := by
      refine ⟨admits.usable, admits.named, fun place among => ?_, admits.free.1, ?_⟩
      · have other : place ≠ legacy.place := fun same => offWay (same ▸ among)
        rw [Passable, ← agree.same place other]
        exact admits.passable place among
      · rw [← agree.same _ (Ne.symm differ)]
        exact admits.free.2
    have gone := readText_of_absent proper absent
    refine ⟨cleared, done, hosts_of_admits proper admits' fun other member => ?_, gone, ?_⟩
    · cases member
      refine ⟨differ, fun _ => ?_⟩
      obtain ⟨made, way, proper', stands'⟩ := makeDirectories_of_admits proper admits'
      rw [way]
      apply readText_of_absent proper'
      rw [stands', if_neg offWay, absent]
    · exact (agree.readText hosts.proper (Ne.symm differ)).symm

end Hosts

/-- Where two different files answer like a memory, their paths are separate. -/
theorem separate_of_alike {tree : FileTree} {path legacy : Path} {memory : Memory}
    (proper : tree.Proper) (saves : ∀ text, (tree.save path text).1 = .ok ())
    (differ : legacy.place ≠ path.place) (read : tree.readText legacy = .ok memory.legacy)
    (alike : ∀ stored : StoredCollection, stored.Apart →
      ((storage path (some legacy)).run tree [.save stored, .loadLegacy]).1 =
        (Memory.storage.run memory [.save stored, .loadLegacy]).1) :
    tree.Separate path legacy := by
  refine ⟨differ, fun none => ?_⟩
  have replies := alike Collection.shelf (by decide)
  simp only [Storage.run, Storage.answer, storage, Memory.storage,
    readText_save proper (admits_of_save proper (saves .none)) differ, ← read, none] at replies
  simp only [List.cons.injEq, Reply.legacy.injEq, and_true] at replies
  exact replies.2

end FileTree

end Roadmap
