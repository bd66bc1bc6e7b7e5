import Mathlib.Data.List.Induction
import Mathlib.Data.List.Nodup
import Roadmap.Proofs.Header.UniqueName
import Roadmap.Proofs.Workspace.Current

namespace Roadmap

theorem nodup_set_iff {α : Type} {items : List α} (distinct : items.Nodup) {i : Nat}
    (inside : i < items.length) (item : α) :
    (items.set i item).Nodup ↔ item ∉ items.eraseIdx i := by
  rw [(List.set_perm_cons_eraseIdx inside item).nodup_iff, List.nodup_cons]
  exact and_iff_left (distinct.eraseIdx i)

theorem map_modify_eq_set {α β : Type} {change : α → α} {view : α → β} {value : β}
    (same : ∀ item, view (change item) = value) (i : Nat) (items : List α) :
    (items.modify i change).map view = (items.map view).set i value := by
  induction items generalizing i with
  | nil => rw [List.modify_nil]; rfl
  | cons first rest ih =>
    cases i with
    | zero => simp [same]
    | succ i => simp [ih]

namespace Collection

theorem not_mem_of_chosen {c : Collection} {name wanted : String}
    (chosen : name = wanted ∧ name ∉ c.names ∨ name = uniqueName wanted c.names) :
    name ∉ c.names := by
  rcases chosen with ⟨-, free⟩ | rfl
  · exact free
  · exact uniqueName_not_mem wanted c.names

theorem names_add (c : Collection) (w : Workspace) : (c.add w).names = c.names ++ [w.name] := by
  simp [add, names]

theorem names_create (c : Collection) (name : Option String) (stamp : Stamp) :
    (c.create name stamp).names =
      c.names ++ [uniqueName (name.getD c.config.defaultName) c.names] :=
  names_add c _

theorem names_addDocument (c : Collection) (name : String) (document : Document) (stamp : Stamp) :
    (c.addDocument name document stamp).names = c.names ++ [name] :=
  names_add c _

theorem names_delete_sublist (c : Collection) (id : Identity) :
    (c.delete id).1.names.Sublist c.names :=
  (c.workspaces_delete_sublist id).map Workspace.name

theorem names_switch (c : Collection) (id : Identity) : (c.switch id).1.names = c.names := by
  unfold switch
  split <;> rfl

theorem names_updateContent (c : Collection) (content : String) (time : Timestamp) :
    (c.updateContent content time).names = c.names := by
  apply map_modify_of_eq
  intro w _
  rfl

theorem names_overwrite (c : Collection) (existing : Workspace) (document : Document)
    (time : Timestamp) :
    (c.overwrite existing (c.incomingName document) document time).names = c.names := by
  apply map_modify_of_eq
  intro w found
  obtain ⟨inside, rfl⟩ := List.getElem?_eq_some_iff.1 found
  have here : c.workspaces[c.workspaces.findIdx (·.name = c.incomingName document)].name =
      c.incomingName document := by
    simpa using List.findIdx_getElem (w := inside)
  rw [here, Workspace.name, overwritten_header]

theorem currentIndex_lt {c : Collection} (nonempty : c.workspaces ≠ []) :
    c.currentIndex < c.workspaces.length := by
  unfold currentIndex
  cases found : c.workspaces.findIdx? (·.id = c.currentId) with
  | none => exact List.length_pos_iff.2 nonempty
  | some i =>
    obtain ⟨inside, -⟩ := List.findIdx?_eq_some_iff_getElem.1 found
    exact inside

def otherNames (c : Collection) : List String := c.names.eraseIdx c.currentIndex

def Distinguishes (c : Collection) : Action → Prop
  | .updateRaw text _ => ∀ h ∈ (Document.parse text).header, h.name ∉ c.otherNames
  | _ => True

theorem names_updateRaw (c : Collection) (text : String) (time : Timestamp) :
    (c.updateRaw text time).names =
      match (Document.parse text).header with
      | none => c.names
      | some h => c.names.set c.currentIndex h.name := by
  cases read : (Document.parse text).header with
  | none =>
    apply map_modify_of_eq
    intro w _
    simp [Workspace.name, read]
  | some h =>
    apply map_modify_eq_set
    intro w
    simp [Workspace.name, read]

theorem nodup_names_apply_iff {c : Collection} (distinct : c.names.Nodup) (action : Action) :
    (c.apply action).names.Nodup ↔ c.Distinguishes action := by
  cases action with
  | create name stamp =>
    have fresh := uniqueName_not_mem (name.getD c.config.defaultName) c.names
    rw [apply, names_create, ← List.concat_eq_append]
    exact iff_of_true (distinct.concat fresh) trivial
  | delete id => exact iff_of_true (distinct.sublist (c.names_delete_sublist id)) trivial
  | switch id =>
    rw [apply, names_switch]
    exact iff_of_true distinct trivial
  | updateRaw text time =>
    -- The one action that can give a name which another workspace has.
    rw [apply, names_updateRaw, Distinguishes, otherNames]
    cases (Document.parse text).header with
    | none => simp [distinct]
    | some h =>
      by_cases none : c.workspaces = []
      · simp [names, none]
      · have inside : c.currentIndex < c.names.length := by
          simpa [names] using currentIndex_lt none
        simpa using nodup_set_iff distinct inside h.name
  | updateContent content time =>
    rw [apply, names_updateContent]
    exact iff_of_true distinct trivial
  | updateProjects projects time =>
    rw [apply, updateProjects, names_updateContent]
    exact iff_of_true distinct trivial
  | importShared text resolution stamp =>
    refine iff_of_true ?_ trivial
    rw [apply]
    obtain ⟨same, -⟩ | ⟨existing, -, -, -, same⟩ | ⟨name, chosen, same⟩ :=
      c.importShared_cases text resolution stamp
    all_goals rw [same]
    · exact distinct
    · rwa [names_overwrite]
    · rw [names_addDocument, ← List.concat_eq_append]
      exact distinct.concat (not_mem_of_chosen chosen)

def Adds (c : Collection) : Action → Prop
  | .create _ _ => True
  | .importShared text resolution stamp =>
    (∃ id, (c.importShared text resolution stamp).2 = .imported id) ∧
      ¬ (resolution = some .overwrite ∧ c.incomingName (.parse text) ∈ c.names)
  | _ => False

theorem names_of_adds {c : Collection} {action : Action} (adds : c.Adds action) :
    ∃ name, name ∉ c.names ∧ (c.apply action).names = c.names ++ [name] := by
  cases action with
  | create name stamp => exact ⟨_, uniqueName_not_mem _ _, names_create c name stamp⟩
  | importShared text resolution stamp =>
    obtain ⟨⟨id, imported⟩, kept⟩ := adds
    obtain ⟨-, refused⟩ | ⟨existing, member, named, overwrite, -⟩ | ⟨name, chosen, same⟩ :=
      c.importShared_cases text resolution stamp
    · exact absurd imported (refused id)
    · exact absurd ⟨overwrite, List.mem_map.2 ⟨existing, member, named⟩⟩ kept
    · refine ⟨name, not_mem_of_chosen chosen, ?_⟩
      rw [apply, same, names_addDocument]
  | delete | switch | updateRaw | updateContent | updateProjects => exact adds.elim

theorem run_concat (c : Collection) (front : List Action) (action : Action) :
    c.run (front ++ [action]) = (c.run front).apply action := by
  rw [run, List.foldl_append]
  rfl

theorem nodup_names_run_iff {c : Collection} (distinct : c.names.Nodup) (actions : List Action) :
    (∀ front, front <+: actions → (c.run front).names.Nodup) ↔
      ∀ front action, front ++ [action] <+: actions → (c.run front).Distinguishes action := by
  constructor
  · intro distinct front action part
    have before := distinct front ((List.prefix_append _ _).trans part)
    rw [← nodup_names_apply_iff before, ← run_concat]
    exact distinct _ part
  · intro distinguishes front
    induction front using List.reverseRecOn with
    | nil => exact fun _ => distinct
    | append_singleton front action ih =>
      intro part
      have before := ih ((List.prefix_append _ _).trans part)
      rw [run_concat, nodup_names_apply_iff before]
      exact distinguishes front action part

/-- Names that are distinct stay so, unless a text is taken back that brings in the name of another
workspace, and then they do not. What is created or taken in comes under a name that was free. -/
theorem distinct_names_run {c : Collection} (distinct : c.names.Nodup) (actions : List Action) :
    ((∀ action ∈ actions, ∀ text time, action ≠ .updateRaw text time) →
      (c.run actions).names.Nodup) ∧
    ((∀ front, front <+: actions → (c.run front).names.Nodup) ↔
      ∀ front action, front ++ [action] <+: actions → (c.run front).Distinguishes action) ∧
    ∀ front action, front ++ [action] <+: actions → (c.run front).Adds action →
      ∃ name, name ∉ (c.run front).names ∧
        (c.run (front ++ [action])).names = (c.run front).names ++ [name] := by
  refine ⟨fun others => ?_, nodup_names_run_iff distinct actions, fun front action _ adds => ?_⟩
  · refine (nodup_names_run_iff distinct actions).2 (fun front action part => ?_) _
      (List.prefix_refl _)
    have other := others action (part.subset (by simp))
    cases action with
    | updateRaw text time => exact absurd rfl (other text time)
    | create | delete | switch | updateContent | updateProjects | importShared => trivial
  · rw [run_concat]
    exact names_of_adds adds

/-- A workspace is created under a name that exists, and then one is taken in that has it too. -/
def namesakes : List Action :=
  [.create (some "Sample Project") (.newYear 2),
    .importShared "name: Sample Project\n---\nApp:" (some .overwrite) (.newYear 3),
    .importShared "name: Sample Project\n---\nApp:" (some .rename) (.newYear 4)]

theorem distinct_namesakes :
    (sample .standard (.newYear 1)).names.Nodup ∧
      (∀ action ∈ namesakes, ∀ text time, action ≠ .updateRaw text time) ∧
      ((sample .standard (.newYear 1)).run namesakes).names.Nodup ∧
      ∃ name, name ∉ ((sample .standard (.newYear 1)).run (namesakes.take 2)).names ∧
        ((sample .standard (.newYear 1)).run namesakes).names =
          ((sample .standard (.newYear 1)).run (namesakes.take 2)).names ++ [name] := by
  have distinct : (sample .standard (.newYear 1)).names.Nodup := by decide
  have others : ∀ action ∈ namesakes, ∀ text time, action ≠ .updateRaw text time := by
    simp [namesakes]
  have adds : ((sample .standard (.newYear 1)).run (namesakes.take 2)).Adds
      (.importShared "name: Sample Project\n---\nApp:" (some .rename) (.newYear 4)) :=
    ⟨⟨.ofNat 4, by decide +kernel⟩, by simp⟩
  obtain ⟨kept, -, added⟩ := distinct_names_run distinct namesakes
  exact ⟨distinct, others, kept others, added (namesakes.take 2) _ (List.prefix_refl _) adds⟩

end Collection

end Roadmap
