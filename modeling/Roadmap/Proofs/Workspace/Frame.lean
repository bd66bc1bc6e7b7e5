import Roadmap.Proofs.Header.Reading
import Roadmap.Proofs.Workspace.Current

namespace Roadmap

namespace Collection

variable {c : Collection}

structure Removes (c : Collection) (id : Identity) (c' : Collection) : Prop where
  workspaces : ∃ before gone after, c.workspaces = before ++ gone :: after ∧ gone.id = id ∧
    c'.workspaces = before ++ after
  absent : id ∉ c'.ids
  kept : c.currentId ≠ id → c'.currentId = c.currentId
  moved : c.currentId = id → c'.workspaces.head?.map Workspace.id = some c'.currentId
  config : c'.config = c.config

structure Edits (c : Collection) (Change : Workspace → Workspace → Prop) (c' : Collection) :
    Prop where
  ids : c'.ids = c.ids
  currentId : c'.currentId = c.currentId
  config : c'.config = c.config
  others : ∀ i : Nat, c.ids[i]? ≠ some c.currentId → c'.workspaces[i]? = c.workspaces[i]?
  current : ∃ old new, c.current? = some old ∧ c'.current? = some new ∧ old.id = c.currentId ∧
    new.id = c.currentId ∧ Change old new

/-- A text is taken for a document: a header comes with the text below the delimiter, and a text
without one is content only. -/
def Retold (text : String) (time : Timestamp) (old new : Workspace) : Prop :=
  (∃ lines content h, Document.parse text = ⟨some h, content⟩ ∧
      Document.Divided text lines content ∧
      new = { old with header := h, content := content, updatedAt := time }) ∨
    (Document.parse text).header = none ∧ new = { old with content := text, updatedAt := time }

theorem removes_delete (distinct : c.ids.Nodup) {id : Identity} (known : id ∈ c.ids)
    (several : 2 ≤ c.workspaces.length) : c.Removes id (c.delete id).1 := by
  obtain ⟨w, member, same⟩ := List.mem_map.1 known
  obtain ⟨gone, before, after, -, here, whole, left⟩ :=
    List.exists_of_eraseP (p := fun w : Workspace => w.id = id) member (by simpa using same)
  have own : gone.id = id := by simpa using here
  rw [delete, if_pos ⟨known, several⟩]
  constructor
  case workspaces => exact ⟨before, gone, after, whole, own, left⟩
  case absent =>
    rw [ids, whole, List.map_append, List.map_cons, List.nodup_middle, own] at distinct
    simpa only [ids, left, List.map_append] using (List.nodup_cons.1 distinct).1
  case kept => exact fun other => if_neg other
  case moved =>
    intro current
    have some : before ++ after ≠ [] := by
      rw [whole, List.length_append, List.length_cons] at several
      exact List.ne_nil_of_length_pos (by rw [List.length_append]; omega)
    obtain ⟨first, rest, parts⟩ := List.exists_cons_of_ne_nil some
    simp [current, left, parts]
  case config => rfl

theorem delete_cases (c : Collection) (id : Identity) :
    ((c.delete id).2 = true ↔ id ∈ c.ids ∧ 2 ≤ c.workspaces.length) ∧
      ((c.delete id).2 = false → (c.delete id).1 = c) := by
  unfold delete
  split
  · next allowed => exact ⟨iff_of_true rfl allowed, nofun⟩
  · next refused => exact ⟨iff_of_false nofun refused, fun _ => rfl⟩

theorem switch_cases (c : Collection) (id : Identity) :
    ((c.switch id).2 = true ↔ id ∈ c.ids) ∧
      ((c.switch id).2 = true → (c.switch id).1 = { c with currentId := id }) ∧
      ((c.switch id).2 = false → (c.switch id).1 = c) := by
  unfold switch
  split
  · next known => exact ⟨iff_of_true rfl known, fun _ => rfl, nofun⟩
  · next unknown => exact ⟨iff_of_false nofun unknown, nofun, fun _ => rfl⟩

theorem edits_updateCurrent (sound : c.Sound) {change : Workspace → Workspace}
    (same : ∀ w, (change w).id = w.id) {Change : Workspace → Workspace → Prop}
    (changed : ∀ old, Change old (change old)) : c.Edits Change (c.updateCurrent change) := by
  obtain ⟨old, current, -, own⟩ := exists_current sound
  constructor
  case ids => exact ids_updateCurrent c same
  case currentId => rfl
  case config => rfl
  case others =>
    intro i other
    refine List.getElem?_modify_ne _ _ fun here => other ?_
    rw [← here, ids, List.getElem?_map, ← current?, current, Option.map_some, own]
  case current =>
    refine ⟨old, change old, current, ?_, own, (same old).trans own, changed old⟩
    rw [current?_updateCurrent c same, current]
    rfl

theorem edits_updateRaw (sound : c.Sound) (text : String) (time : Timestamp) :
    c.Edits (Retold text time) (c.updateRaw text time) := by
  apply edits_updateCurrent sound
  · intro old
    rfl
  · intro old
    have reads := Document.reads_parse text
    rcases read : Document.parse text with ⟨header, content⟩
    rw [read] at reads
    cases reads with
    | headed divided gives tells => exact .inl ⟨_, _, _, read, divided, rfl⟩
    | bare headless => exact .inr ⟨by rw [read], rfl⟩

theorem edits_updateContent (sound : c.Sound) (content : String) (time : Timestamp) :
    c.Edits (fun old new => new = { old with content := content, updatedAt := time })
      (c.updateContent content time) := by
  apply edits_updateCurrent sound
  · intro old
    rfl
  · intro old
    rfl

/-- Every change is local. An action that is refused changes nothing at all, a deleted workspace is
the only one missing, switching moves the pointer, and of the edits only a text with a header brings
a new one. -/
theorem changes_local (sound : c.Sound) (distinct : c.ids.Nodup) :
    (∀ id, ((c.delete id).2 = true ↔ id ∈ c.ids ∧ 2 ≤ c.workspaces.length) ∧
      ((c.delete id).2 = true → c.Removes id (c.delete id).1) ∧
      ((c.delete id).2 = false → (c.delete id).1 = c)) ∧
    (∀ id, ((c.switch id).2 = true ↔ id ∈ c.ids) ∧
      ((c.switch id).2 = true → (c.switch id).1 = { c with currentId := id }) ∧
      ((c.switch id).2 = false → (c.switch id).1 = c)) ∧
    (∀ text time, c.Edits (Retold text time) (c.updateRaw text time)) ∧
    (∀ content time,
      c.Edits (fun old new => new = { old with content := content, updatedAt := time })
        (c.updateContent content time)) ∧
    ∀ projects time,
      c.Edits (fun old new => new = { old with content := Plan.write projects, updatedAt := time })
        (c.updateProjects projects time) := by
  refine ⟨fun id => ?_, c.switch_cases, edits_updateRaw sound, fun content time => ?_,
    fun projects time => ?_⟩
  · obtain ⟨allowed, refused⟩ := c.delete_cases id
    refine ⟨allowed, fun deleted => ?_, refused⟩
    obtain ⟨known, several⟩ := allowed.1 deleted
    exact removes_delete distinct known several
  · exact edits_updateContent sound content time
  · exact edits_updateContent sound (Plan.write projects) time

/-- Three workspaces of one name, of which the second is current. -/
def triplets : Collection :=
  ⟨[.new (.named "A") "A:" (.newYear 1), .new (.named "A") "" (.newYear 2),
      .new (.named "A") "" (.newYear 3)], .ofNat 2, .standard⟩

theorem changes_triplets :
    triplets.Sound ∧ triplets.ids.Nodup ∧
      ((triplets.delete (.ofNat 2)).2 = true ∧
        triplets.Removes (.ofNat 2) (triplets.delete (.ofNat 2)).1) ∧
      ((triplets.delete (.ofNat 4)).2 = false ∧ (triplets.delete (.ofNat 4)).1 = triplets) ∧
      ((triplets.switch (.ofNat 3)).2 = true ∧
        (triplets.switch (.ofNat 3)).1 = { triplets with currentId := .ofNat 3 }) ∧
      ((triplets.switch (.ofNat 4)).2 = false ∧ (triplets.switch (.ofNat 4)).1 = triplets) ∧
      triplets.Edits (Retold "name: B\n---\nB:" (Stamp.newYear 4).time)
        (triplets.updateRaw "name: B\n---\nB:" (Stamp.newYear 4).time) := by
  have sound : triplets.Sound := by decide
  have distinct : triplets.ids.Nodup := by decide
  have deleted : (triplets.delete (.ofNat 2)).2 = true := by decide
  have missing : (triplets.delete (.ofNat 4)).2 = false := by decide
  have switched : (triplets.switch (.ofNat 3)).2 = true := by decide
  have unknown : (triplets.switch (.ofNat 4)).2 = false := by decide
  obtain ⟨delete, switch, raw, -, -⟩ := changes_local sound distinct
  exact ⟨sound, distinct, ⟨deleted, (delete _).2.1 deleted⟩, ⟨missing, (delete _).2.2 missing⟩,
    ⟨switched, (switch _).2.1 switched⟩, ⟨unknown, (switch _).2.2 unknown⟩, raw _ _⟩

end Collection

end Roadmap
