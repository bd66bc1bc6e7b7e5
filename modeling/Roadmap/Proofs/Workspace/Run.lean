import Mathlib.Data.List.Basic
import Roadmap.Workspace.Import

namespace Roadmap

/-- What can be done to a collection, with the stamp or the time of doing it. -/
inductive Action where
  | create (name : Option String) (stamp : Stamp)
  | delete (id : Identity)
  | switch (id : Identity)
  | updateRaw (text : String) (time : Timestamp)
  | updateContent (content : String) (time : Timestamp)
  | updateProjects (projects : List Project) (time : Timestamp)
  | importShared (text : String) (resolution : Option Resolution) (stamp : Stamp)

def Stamp.newYear (id : Nat) : Stamp :=
  ⟨.ofNat id, ⟨(Calendar.Month.ofYear 2026 1).first, 0, 0, 0, by decide, by decide, by decide,
    by decide⟩⟩

theorem mem_modify {α : Type} {change : α → α} {i : Nat} {items : List α} {item : α}
    (member : item ∈ items.modify i change) :
    item ∈ items ∨ ∃ old, items[i]? = some old ∧ item = change old := by
  obtain ⟨j, there⟩ := List.mem_iff_getElem?.1 member
  rw [List.getElem?_modify] at there
  split at there
  · next here =>
    subst here
    obtain ⟨old, before, rfl⟩ := Option.map_eq_some_iff.1 there
    exact .inr ⟨old, before, rfl⟩
  · rw [Option.map_eq_map, Option.map_id'] at there
    exact .inl (List.mem_of_getElem? there)

theorem map_modify_of_eq {α β : Type} {change : α → α} {view : α → β} {i : Nat} {items : List α}
    (same : ∀ item ∈ items[i]?, view (change item) = view item) :
    (items.modify i change).map view = items.map view := by
  induction items generalizing i with
  | nil => rw [List.modify_nil]
  | cons first rest ih =>
    cases i with
    | zero => simp [same first rfl]
    | succ i => simp [ih same]

namespace Collection

def apply (c : Collection) : Action → Collection
  | .create name stamp => c.create name stamp
  | .delete id => (c.delete id).1
  | .switch id => (c.switch id).1
  | .updateRaw text time => c.updateRaw text time
  | .updateContent content time => c.updateContent content time
  | .updateProjects projects time => c.updateProjects projects time
  | .importShared text resolution stamp => (c.importShared text resolution stamp).1

def run (c : Collection) (actions : List Action) : Collection := actions.foldl apply c

theorem run_induction (Invariant : Collection → Prop) {actions : List Action}
    (step : ∀ c, ∀ action ∈ actions, Invariant c → Invariant (c.apply action)) {c : Collection}
    (start : Invariant c) : Invariant (c.run actions) := by
  induction actions generalizing c with
  | nil => exact start
  | cons action rest ih =>
    have first := step c action List.mem_cons_self start
    exact ih (fun c action member => step c action (List.mem_cons_of_mem _ member)) first

theorem find?_name_eq_none_iff {c : Collection} {name : String} :
    c.workspaces.find? (·.name = name) = none ↔ name ∉ c.names := by
  simp [names, List.find?_eq_none]

theorem exists_found {c : Collection} {name : String} (taken : name ∈ c.names) :
    ∃ existing, c.workspaces.find? (·.name = name) = some existing :=
  Option.ne_none_iff_exists'.1 fun none => find?_name_eq_none_iff.1 none taken

theorem overwritten?_of_ne {resolution : Option Resolution} (other : resolution ≠ some .overwrite)
    (c : Collection) (name : String) : c.overwritten? resolution name = none :=
  if_neg fun both => other both.1

theorem overwritten?_of_taken {c : Collection} {name : String} (taken : name ∈ c.names) :
    c.overwritten? (some .overwrite) name = c.workspaces.find? (·.name = name) :=
  if_pos ⟨rfl, taken⟩

theorem overwritten?_eq_none_iff {c : Collection} {name : String} :
    c.overwritten? (some .overwrite) name = none ↔ name ∉ c.names := by
  by_cases taken : name ∈ c.names
  · rw [overwritten?_of_taken taken, find?_name_eq_none_iff]
  · exact iff_of_true (if_neg fun both => taken both.2) taken

theorem importShared_cancel (c : Collection) (text : String) (stamp : Stamp) :
    c.importShared text (some .cancel) stamp = (c, .cancelled) := by
  rw [importShared, if_neg (by simp), if_pos rfl]

theorem importShared_of_free {c : Collection} {text : String}
    (free : c.incomingName (.parse text) ∉ c.names) {resolution : Option Resolution}
    (going : resolution ≠ some .cancel) (stamp : Stamp) :
    c.importShared text resolution stamp =
      (c.addDocument (c.incomingName (.parse text)) (.parse text) stamp, .imported stamp.id) := by
  have none : c.overwritten? resolution (c.incomingName (.parse text)) = none :=
    if_neg fun both => free both.2
  have same : c.finalName resolution (c.incomingName (.parse text)) =
      c.incomingName (.parse text) := if_neg fun both => free both.2
  rw [importShared, if_neg fun both => free both.2, if_neg going, none]
  dsimp only
  rw [same]

theorem importShared_of_taken {c : Collection} {text : String} {existing : Workspace}
    (found : c.workspaces.find? (·.name = c.incomingName (.parse text)) = some existing)
    (resolution : Option Resolution) (stamp : Stamp) :
    c.importShared text resolution stamp =
      match resolution with
      | none => (c, .conflict (c.incomingName (.parse text)))
      | some .overwrite =>
        (c.overwrite existing (c.incomingName (.parse text)) (.parse text) stamp.time,
          .imported existing.id)
      | some .rename =>
        (c.addDocument (uniqueName (c.incomingName (.parse text)) c.names) (.parse text) stamp,
          .imported stamp.id)
      | some .cancel => (c, .cancelled) := by
  have taken : c.incomingName (.parse text) ∈ c.names := by
    by_contra free
    rw [find?_name_eq_none_iff.2 free] at found
    cases found
  rcases resolution with _ | _ | _ | _
  · exact if_pos ⟨rfl, taken⟩
  · rw [importShared, if_neg (by simp), if_neg (by simp), overwritten?_of_taken taken, found]
  · rw [importShared, if_neg (by simp), if_neg (by simp), overwritten?_of_ne (by simp), finalName,
      if_pos ⟨rfl, taken⟩]
  · exact importShared_cancel c text stamp

theorem importShared_cases (c : Collection) (text : String) (resolution : Option Resolution)
    (stamp : Stamp) :
    ((c.importShared text resolution stamp).1 = c ∧
      ∀ id, (c.importShared text resolution stamp).2 ≠ .imported id) ∨
    (∃ existing ∈ c.workspaces, existing.name = c.incomingName (.parse text) ∧
      resolution = some .overwrite ∧
      (c.importShared text resolution stamp).1 =
        c.overwrite existing (c.incomingName (.parse text)) (.parse text) stamp.time) ∨
    ∃ name, (name = c.incomingName (.parse text) ∧ name ∉ c.names ∨
        name = uniqueName (c.incomingName (.parse text)) c.names) ∧
      (c.importShared text resolution stamp).1 = c.addDocument name (.parse text) stamp := by
  by_cases cancel : resolution = some .cancel
  · rw [cancel, importShared_cancel]
    exact .inl ⟨rfl, nofun⟩
  by_cases taken : c.incomingName (.parse text) ∈ c.names
  · obtain ⟨existing, found⟩ := exists_found taken
    rw [importShared_of_taken found]
    rcases resolution with _ | _ | _ | _
    · exact .inl ⟨rfl, nofun⟩
    · have named := List.find?_some found
      exact .inr (.inl ⟨existing, List.mem_of_find?_eq_some found, by simpa using named, rfl, rfl⟩)
    · exact .inr (.inr ⟨_, .inr rfl, rfl⟩)
    · exact absurd rfl cancel
  · rw [importShared_of_free taken cancel]
    exact .inr (.inr ⟨_, .inl ⟨rfl, taken⟩, rfl⟩)

theorem config_apply (c : Collection) (action : Action) : (c.apply action).config = c.config := by
  cases action with
  | create | updateRaw | updateContent | updateProjects => rfl
  | delete id => simp only [apply, delete]; split <;> rfl
  | switch id => simp only [apply, switch]; split <;> rfl
  | importShared text resolution stamp =>
    rw [apply]
    obtain ⟨same, -⟩ | ⟨existing, -, -, -, same⟩ | ⟨name, -, same⟩ :=
      c.importShared_cases text resolution stamp
    all_goals rw [same]
    all_goals rfl

theorem sound_single (w : Workspace) (config : Config) : (single w config).Sound := by
  simp [single, Sound, ids]

theorem sound_add (c : Collection) (w : Workspace) : (c.add w).Sound := by
  simp [add, Sound, ids]

theorem ids_updateCurrent (c : Collection) {change : Workspace → Workspace}
    (same : ∀ w, (change w).id = w.id) : (c.updateCurrent change).ids = c.ids :=
  map_modify_of_eq fun w _ => same w

theorem sound_updateCurrent {c : Collection} (sound : c.Sound) {change : Workspace → Workspace}
    (same : ∀ w, (change w).id = w.id) : (c.updateCurrent change).Sound := by
  rw [Sound, ids_updateCurrent c same]
  exact sound

theorem sound_delete {c : Collection} (sound : c.Sound) (id : Identity) :
    (c.delete id).1.Sound := by
  unfold delete
  split
  · next known =>
    by_cases current : c.currentId = id
    · have some : c.workspaces.eraseP (·.id = id) ≠ [] := by
        have shorter :=
          List.le_length_eraseP (p := fun w : Workspace => w.id = id) (l := c.workspaces)
        have two := known.2
        intro none
        rw [none, List.length_nil] at shorter
        omega
      obtain ⟨first, others, remaining⟩ := List.exists_cons_of_ne_nil some
      simp [Sound, ids, current, remaining]
    · obtain ⟨w, member, same⟩ := List.mem_map.1 sound
      have other : ¬ decide (w.id = id) = true := by
        simpa [same] using current
      have kept := (List.mem_eraseP_of_neg (p := fun w : Workspace => w.id = id) other).2 member
      simp only [Sound, ids, current, if_false]
      exact List.mem_map.2 ⟨w, kept, same⟩
  · exact sound

theorem sound_switch {c : Collection} (sound : c.Sound) (id : Identity) :
    (c.switch id).1.Sound := by
  unfold switch
  split
  · next known => exact known
  · exact sound

theorem ids_overwrite (c : Collection) (existing : Workspace) (name : String)
    (document : Document) (time : Timestamp) :
    (c.overwrite existing name document time).ids = c.ids := by
  apply map_modify_of_eq
  intro w _
  rfl

theorem sound_overwrite {c : Collection} {existing : Workspace} (member : existing ∈ c.workspaces)
    (name : String) (document : Document) (time : Timestamp) :
    (c.overwrite existing name document time).Sound := by
  rw [Sound, ids_overwrite]
  exact List.mem_map_of_mem member

theorem currentIndex_eq (c : Collection) :
    c.currentIndex = (c.ids.findIdx? (· = c.currentId)).getD 0 := by
  rw [ids, List.findIdx?_map]
  rfl

theorem current?_updateCurrent (c : Collection) {change : Workspace → Workspace}
    (same : ∀ w, (change w).id = w.id) :
    (c.updateCurrent change).current? = c.current?.map change := by
  have index : (c.updateCurrent change).currentIndex = c.currentIndex := by
    rw [currentIndex_eq, currentIndex_eq, ids_updateCurrent c same]
    rfl
  rw [current?, index]
  exact List.getElem?_modify_eq change _ _

theorem sound_apply {c : Collection} (sound : c.Sound) (action : Action) :
    (c.apply action).Sound := by
  cases action with
  | create name stamp => exact sound_add c _
  | delete id => exact sound_delete sound id
  | switch id => exact sound_switch sound id
  | updateRaw text time => exact sound_updateCurrent sound fun _ => rfl
  | updateContent content time => exact sound_updateCurrent sound fun _ => rfl
  | updateProjects projects time => exact sound_updateCurrent sound fun _ => rfl
  | importShared text resolution stamp =>
    rw [apply]
    obtain ⟨same, -⟩ | ⟨existing, member, -, -, same⟩ | ⟨name, -, same⟩ :=
      c.importShared_cases text resolution stamp
    all_goals rw [same]
    · exact sound
    · exact sound_overwrite member _ _ _
    · exact sound_add c _

theorem sound_run {c : Collection} (sound : c.Sound) (actions : List Action) :
    (c.run actions).Sound :=
  run_induction Sound (fun _ action _ sound => sound_apply sound action) sound

theorem findIdx?_current {c : Collection} (sound : c.Sound) :
    c.workspaces.findIdx? (·.id = c.currentId) = some c.currentIndex := by
  obtain ⟨w, member, same⟩ := List.mem_map.1 sound
  cases place : c.workspaces.findIdx? (·.id = c.currentId) with
  | none =>
    have absent := List.findIdx?_eq_none_iff.1 place w member
    simp [same] at absent
  | some i => simp [currentIndex, place]

theorem exists_current {c : Collection} (sound : c.Sound) :
    ∃ w, c.current? = some w ∧ w ∈ c.workspaces ∧ w.id = c.currentId := by
  obtain ⟨inside, here, -⟩ := List.findIdx?_eq_some_iff_getElem.1 (findIdx?_current sound)
  exact ⟨c.workspaces[c.currentIndex], List.getElem?_eq_getElem inside, List.getElem_mem inside,
    by simpa using here⟩

def Brings (c : Collection) : Action → Header → Prop
  | .create name stamp, h =>
    h = (Header.named (uniqueName (name.getD c.config.defaultName) c.names)).withCreatedAt
      stamp.today
  | .updateRaw text _, h => (Document.parse text).header = some h
  | .importShared text _ _, h =>
    ∃ name, (name = c.incomingName (.parse text) ∨
        name = uniqueName (c.incomingName (.parse text)) c.names) ∧
      h = { (Document.parse text).header.getD (.named "") with name := name }
  | _, _ => False

theorem header_of_updateCurrent {c : Collection} {change : Workspace → Workspace} {w : Workspace}
    (member : w ∈ (c.updateCurrent change).workspaces) :
    w ∈ c.workspaces ∨ ∃ old ∈ c.workspaces, w = change old := by
  rcases mem_modify member with kept | ⟨old, before, changed⟩
  · exact .inl kept
  · exact .inr ⟨old, List.mem_of_getElem? before, changed⟩

theorem overwritten_header (c : Collection) (document : Document) :
    document.header.getD (.named (c.incomingName document)) =
      { document.header.getD (.named "") with name := c.incomingName document } := by
  unfold incomingName
  cases document.header with
  | none => rfl
  | some h => rfl

theorem header_of_apply {c : Collection} {action : Action} {w : Workspace}
    (member : w ∈ (c.apply action).workspaces) :
    (∃ old ∈ c.workspaces, w.header = old.header) ∨ Brings c action w.header := by
  have kept : w ∈ c.workspaces → ∃ old ∈ c.workspaces, w.header = old.header :=
    fun old => ⟨w, old, rfl⟩
  cases action with
  | create name stamp =>
    rcases List.mem_append.1 member with old | new
    · exact .inl (kept old)
    · rw [List.mem_singleton.1 new]
      exact .inr rfl
  | delete id =>
    simp only [apply, delete] at member
    split at member
    · exact .inl (kept (List.mem_of_mem_eraseP member))
    · exact .inl (kept member)
  | switch id =>
    simp only [apply, switch] at member
    split at member
    · exact .inl (kept member)
    · exact .inl (kept member)
  | updateRaw text time =>
    rcases header_of_updateCurrent member with same | ⟨old, before, rfl⟩
    · exact .inl (kept same)
    · cases read : (Document.parse text).header with
      | none => exact .inl ⟨old, before, by simp⟩
      | some h => exact .inr (by simp [Brings, read])
  | updateContent | updateProjects =>
    rcases header_of_updateCurrent member with same | ⟨old, before, rfl⟩
    · exact .inl (kept same)
    · exact .inl ⟨old, before, rfl⟩
  | importShared text resolution stamp =>
    rw [apply] at member
    obtain ⟨same, -⟩ | ⟨existing, -, -, -, same⟩ | ⟨name, chosen, same⟩ :=
      c.importShared_cases text resolution stamp
    all_goals rw [same] at member
    · exact .inl (kept member)
    · rcases mem_modify member with old | ⟨old, -, rfl⟩
      · exact .inl (kept old)
      · exact .inr ⟨_, .inl rfl, overwritten_header c _⟩
    · rcases List.mem_append.1 member with old | new
      · exact .inl (kept old)
      · rw [List.mem_singleton.1 new]
        exact .inr ⟨name, chosen.imp_left And.left, rfl⟩

end Collection

end Roadmap
