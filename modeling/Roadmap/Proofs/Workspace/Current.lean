import Mathlib.Data.List.Nodup
import Roadmap.Proofs.Storage.Migration

namespace Roadmap

def Action.stamp? : Action → Option Stamp
  | .create _ stamp => some stamp
  | .importShared _ _ stamp => some stamp
  | _ => none

namespace Collection

inductive Begun : Collection → Prop where
  | sample (config : Config) (stamp : Stamp) : Begun (sample config stamp)
  | legacy (text : String) (config : Config) (stamp : Stamp) : Begun (ofLegacy text config stamp)
  | stored {stored : StoredCollection} {config : Config} {c : Collection}
      (taken : ofStored? stored config = some c) : Begun c
  | loaded {σ : Type} (storage : Storage σ) (config : Config) (stamp : Stamp) (state : σ) :
      Begun (load storage config stamp state).1

theorem sound_of_ofStored? {stored : StoredCollection} {config : Config} {c : Collection}
    (taken : ofStored? stored config = some c) : c.Sound := by
  obtain ⟨first, head, rfl⟩ := Option.map_eq_some_iff.1 taken
  by_cases known : stored.workspaces.any (·.id = stored.currentId) = true
  · obtain ⟨w, member, same⟩ := List.any_eq_true.1 known
    have here : stored.currentId ∈ stored.workspaces.map Workspace.id :=
      List.mem_map.2 ⟨w, member, by simpa using same⟩
    simp only [Sound, ids]
    rwa [if_pos known]
  · have here : first.id ∈ stored.workspaces.map Workspace.id :=
      List.mem_map_of_mem (List.mem_of_mem_head? head)
    simp only [Sound, ids]
    rwa [if_neg known]

theorem load_cases {σ : Type} (storage : Storage σ) (config : Config) (stamp : Stamp) (state : σ) :
    kept? storage config state = some (load storage config stamp state).1 ∨
      (load storage config stamp state).1 = initial storage config stamp state := by
  cases kept : kept? storage config state with
  | some c => exact .inl (by rw [load_of_kept kept])
  | none =>
    rcases same : (initial storage config stamp state).save storage state with ⟨_ | _, saved⟩
    · exact .inr (by rw [load_of_unsaved kept same])
    · exact .inr (by rw [load_of_saved kept same])

theorem sound_of_kept? {σ : Type} {storage : Storage σ} {config : Config} {state : σ}
    {c : Collection} (kept : kept? storage config state = some c) : c.Sound := by
  unfold kept? at kept
  split at kept
  · exact sound_of_ofStored? kept
  · cases kept

theorem sound_initial {σ : Type} (storage : Storage σ) (config : Config) (stamp : Stamp)
    (state : σ) : (initial storage config stamp state).Sound := by
  unfold initial
  split
  · exact sound_single _ _
  · exact sound_single _ _

theorem Begun.sound {c : Collection} (begun : c.Begun) : c.Sound := by
  cases begun with
  | sample config stamp => exact sound_single _ _
  | legacy text config stamp => exact sound_single _ _
  | stored taken => exact sound_of_ofStored? taken
  | loaded storage config stamp state =>
    rcases load_cases storage config stamp state with kept | made
    · exact sound_of_kept? kept
    · rw [made]
      exact sound_initial storage config stamp state

structure Pointed (c : Collection) : Prop where
  nonempty : c.workspaces ≠ []
  known : c.currentId ∈ c.ids
  found : c.workspaces.findIdx? (·.id = c.currentId) = some c.currentIndex
  inside : c.currentIndex < c.workspaces.length
  current : ∃ w ∈ c.workspaces, c.current? = some w ∧ w.id = c.currentId

theorem Sound.pointed {c : Collection} (sound : c.Sound) : c.Pointed := by
  obtain ⟨w, current, member, same⟩ := exists_current sound
  obtain ⟨inside, -⟩ := List.getElem?_eq_some_iff.1 current
  exact ⟨List.ne_nil_of_mem member, sound, findIdx?_current sound, inside, w, member, current, same⟩

theorem current?_of_mem {c : Collection} (distinct : c.ids.Nodup) {w : Workspace}
    (member : w ∈ c.workspaces) (same : w.id = c.currentId) : c.current? = some w := by
  have sound : c.Sound := List.mem_map.2 ⟨w, member, same⟩
  obtain ⟨found, current, among, here⟩ := exists_current sound
  rw [current, List.inj_on_of_nodup_map distinct among member (here.trans same.symm)]

theorem ids_add (c : Collection) (w : Workspace) : (c.add w).ids = c.ids ++ [w.id] := by
  simp [add, ids]

theorem workspaces_delete_sublist (c : Collection) (id : Identity) :
    (c.delete id).1.workspaces.Sublist c.workspaces := by
  unfold delete
  split
  · exact List.eraseP_sublist
  · exact .refl _

theorem ids_apply (c : Collection) (action : Action) :
    (c.apply action).ids.Sublist c.ids ∨
      ∃ stamp ∈ action.stamp?, (c.apply action).ids = c.ids ++ [stamp.id] := by
  cases action with
  | create name stamp => exact .inr ⟨stamp, rfl, ids_add c _⟩
  | delete id => exact .inl ((c.workspaces_delete_sublist id).map Workspace.id)
  | switch id =>
    refine .inl ?_
    simp only [apply, switch]
    split
    · exact .refl _
    · exact .refl _
  | updateRaw text time =>
    have kept : (c.updateRaw text time).ids = c.ids := ids_updateCurrent c fun _ => rfl
    exact .inl (by rw [apply, kept])
  | updateContent content time =>
    have kept : (c.updateContent content time).ids = c.ids := ids_updateCurrent c fun _ => rfl
    exact .inl (by rw [apply, kept])
  | updateProjects projects time =>
    have kept : (c.updateProjects projects time).ids = c.ids := ids_updateCurrent c fun _ => rfl
    exact .inl (by rw [apply, kept])
  | importShared text resolution stamp =>
    rw [apply]
    obtain ⟨same, -⟩ | ⟨existing, -, -, -, same⟩ | ⟨name, -, same⟩ :=
      c.importShared_cases text resolution stamp
    all_goals rw [same]
    · exact .inl (.refl _)
    · exact .inl (by rw [ids_overwrite])
    · exact .inr ⟨stamp, rfl, ids_add c _⟩

def BringsNew (c : Collection) (action : Action) : Prop :=
  c.workspaces.length < (c.apply action).workspaces.length →
    ∀ stamp ∈ action.stamp?, stamp.id ∉ c.ids

def Fresh (c : Collection) : List Action → Prop
  | [] => True
  | action :: rest => c.BringsNew action ∧ (c.apply action).Fresh rest

theorem nodup_apply {c : Collection} (distinct : c.ids.Nodup) {action : Action}
    (new : c.BringsNew action) : (c.apply action).ids.Nodup := by
  rcases c.ids_apply action with kept | ⟨stamp, given, added⟩
  · exact distinct.sublist kept
  · have longer : c.workspaces.length < (c.apply action).workspaces.length := by
      have length := congrArg List.length added
      simp only [ids, List.length_append, List.length_map, List.length_singleton] at length
      omega
    have absent := new longer stamp given
    rw [added, List.nodup_append]
    refine ⟨distinct, by simp, fun id old other last same => ?_⟩
    rw [List.mem_singleton.1 last] at same
    exact absent (same ▸ old)

theorem nodup_run {c : Collection} (distinct : c.ids.Nodup) {actions : List Action}
    (fresh : c.Fresh actions) : (c.run actions).ids.Nodup := by
  induction actions generalizing c with
  | nil => exact distinct
  | cons action rest ih => exact ih (nodup_apply distinct fresh.1) fresh.2

/-- Every collection points at one of its workspaces, from its beginning and through any run; and
new identities keep the identities distinct. -/
theorem pointed_run {c : Collection} (begun : c.Begun) (actions : List Action) :
    (c.run actions).Pointed ∧
      (c.ids.Nodup → c.Fresh actions → (c.run actions).ids.Nodup) :=
  ⟨(sound_run begun.sound actions).pointed, fun distinct fresh => nodup_run distinct fresh⟩

/-- Two workspaces, kept with a current identity that is neither of theirs. -/
def dangling : StoredCollection :=
  ⟨[.new (.named "A") "" (.newYear 1), .new (.named "B") "" (.newYear 2)], .ofNat 9⟩

def errands : List Action :=
  [.create none (.newYear 3), .importShared "A:" none (.newYear 4), .delete (.ofNat 4),
    .delete (.ofNat 1)]

theorem pointed_run_dangling :
    ∃ c : Collection, c.Begun ∧ c.ids.Nodup ∧ c.Fresh errands ∧ (c.run errands).Pointed ∧
      (c.run errands).ids.Nodup := by
  have taken : ofStored? dangling .standard = some ⟨dangling.workspaces, .ofNat 1, .standard⟩ := rfl
  have distinct : (⟨dangling.workspaces, .ofNat 1, .standard⟩ : Collection).ids.Nodup := by decide
  have fresh : (⟨dangling.workspaces, .ofNat 1, .standard⟩ : Collection).Fresh errands := by
    refine ⟨fun _ stamp given => ?_, fun _ stamp given => ?_, fun _ stamp given => ?_,
      fun _ stamp given => ?_, trivial⟩
    · cases given
      decide
    · cases given
      decide +kernel
    · cases given
    · cases given
  have kept := pointed_run (.stored taken) errands
  exact ⟨_, .stored taken, distinct, fresh, kept.1, kept.2 distinct fresh⟩

end Collection

end Roadmap
