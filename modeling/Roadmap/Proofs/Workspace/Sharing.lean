import Roadmap.Proofs.Header.RoundTrip
import Roadmap.Proofs.Workspace.Import

namespace Roadmap

def Workspace.shared (source : Workspace) : Document := ⟨some source.header.filled, source.content⟩

theorem Workspace.read_shared {source : Workspace} (writable : source.header.Writable) :
    Document.parse source.rawText = source.shared :=
  Document.parse_document writable source.content

structure Workspace.Received (source : Workspace) (name : String) (w : Workspace) : Prop where
  content : w.content = source.content
  header : w.header = { source.header.filled with name := name }

namespace Workspace.Received

variable {source w : Workspace} {name : String}

theorem named (received : Received source name w) : w.name = name := by
  rw [Workspace.name, received.header]

theorem schedule (received : Received source name w) (today : Calendar.Day) :
    w.schedule today = source.schedule today := by
  rw [Workspace.schedule, received.content]
  rfl

theorem filled (received : Received source source.name w) : w.header = source.header.filled :=
  received.header

theorem rawText (received : Received source source.name w) : w.rawText = source.rawText := by
  rw [Workspace.rawText, received.filled, received.content, Document.document_filled]
  rfl

end Workspace.Received

namespace Collection

theorem incomingName_shared (c : Collection) (source : Workspace) :
    c.incomingName source.shared = source.name := rfl

def TakesIn (source : Workspace) (name : String) (result : Collection × ImportOutcome) : Prop :=
  ∃ w, result.1.current? = some w ∧ result.2 = .imported w.id ∧ source.Received name w

theorem takesIn_addDocument {c : Collection} (distinct : c.ids.Nodup) {stamp : Stamp}
    (fresh : stamp.id ∉ c.ids) (source : Workspace) (name : String) :
    TakesIn source name (c.addDocument name source.shared stamp, .imported stamp.id) :=
  ⟨_, (appends_addDocument distinct fresh name source.shared).current, rfl, rfl, rfl⟩

theorem takesIn_overwrite {c : Collection} (distinct : c.ids.Nodup) {source existing : Workspace}
    (found : c.workspaces.find? (·.name = source.name) = some existing) (time : Timestamp) :
    TakesIn source source.name
      (c.overwrite existing source.name source.shared time, .imported existing.id) :=
  ⟨_, (overwrites_overwrite distinct found source.shared time).current, rfl, rfl, rfl⟩

def Admits (c : Collection) (resolution : Option Resolution) (name : String) : Prop :=
  resolution ≠ some .cancel ∧ (resolution = none → name ∉ c.names)

section

variable {c : Collection} {source : Workspace} (writable : source.header.Writable)
  (resolution : Option Resolution) (stamp : Stamp)

include writable

theorem incomingName_rawText : c.incomingName (.parse source.rawText) = source.name := by
  rw [Workspace.read_shared writable, incomingName_shared]

theorem takesIn_importShared (distinct : c.ids.Nodup) (fresh : stamp.id ∉ c.ids)
    (admits : c.Admits resolution source.name) :
    TakesIn source (c.finalName resolution source.name)
      (c.importShared source.rawText resolution stamp) := by
  have name : c.incomingName (.parse source.rawText) = source.name := incomingName_rawText writable
  have read := Workspace.read_shared writable
  obtain ⟨going, decided⟩ := admits
  by_cases taken : source.name ∈ c.names
  · obtain ⟨existing, found⟩ := exists_found taken
    rw [importShared_of_taken (by rwa [name]), name, read]
    rcases resolution with _ | _ | _ | _
    · exact absurd taken (decided rfl)
    · rw [finalName, if_neg (by simp)]
      exact takesIn_overwrite distinct found stamp.time
    · rw [finalName, if_pos ⟨rfl, taken⟩]
      exact takesIn_addDocument distinct fresh source _
    · exact absurd rfl going
  · rw [importShared_of_free (by rwa [name]) going, name, read, finalName,
      if_neg fun both => taken both.2]
    exact takesIn_addDocument distinct fresh source source.name

theorem not_imported_of_not_admits (refused : ¬ c.Admits resolution source.name) (id : Identity) :
    (c.importShared source.rawText resolution stamp).2 ≠ .imported id := by
  rcases resolution with _ | _ | _ | _
  · have taken : source.name ∈ c.names := by simpa [Admits] using refused
    obtain ⟨existing, found⟩ := exists_found taken
    rw [importShared_of_taken (by rwa [incomingName_rawText writable])]
    nofun
  · simp [Admits] at refused
  · simp [Admits] at refused
  · rw [importShared_cancel]
    nofun

end

/-- A shared workspace that is taken in is current, with all its content and all its header but for
empty values. Only if its name is taken and a new one is asked for does the name differ, and nothing
else. -/
theorem importShared_rawText {c : Collection} (distinct : c.ids.Nodup) {source : Workspace}
    (writable : source.header.Writable) {stamp : Stamp} (fresh : stamp.id ∉ c.ids)
    (resolution : Option Resolution) :
    ((∃ id, (c.importShared source.rawText resolution stamp).2 = .imported id) ↔
      resolution ≠ some .cancel ∧ (resolution = none → source.name ∉ c.names)) ∧
    ∀ id, (c.importShared source.rawText resolution stamp).2 = .imported id →
      ∃ w, (c.importShared source.rawText resolution stamp).1.current? = some w ∧ w.id = id ∧
        w.content = source.content ∧ w.header = { source.header.filled with name := w.name } ∧
        (∀ today, w.schedule today = source.schedule today) ∧
        if resolution = some .rename ∧ source.name ∈ c.names then
          w.name = uniqueName source.name c.names ∧ w.name ∉ c.names
        else w.header = source.header.filled ∧ w.rawText = source.rawText := by
  by_cases admits : c.Admits resolution source.name
  · obtain ⟨w, current, outcome, received⟩ :=
      takesIn_importShared writable resolution stamp distinct fresh admits
    refine ⟨iff_of_true ⟨w.id, outcome⟩ admits, fun id imported => ?_⟩
    rw [outcome, ImportOutcome.imported.injEq] at imported
    refine ⟨w, current, imported, received.content, received.named ▸ received.header,
      received.schedule, ?_⟩
    rw [finalName] at received
    split_ifs at received ⊢ with renamed
    · exact ⟨received.named, received.named ▸ uniqueName_not_mem source.name c.names⟩
    · exact ⟨received.filled, received.rawText⟩
  · have refused := not_imported_of_not_admits writable resolution stamp admits
    exact ⟨iff_of_false (not_exists.2 refused) admits,
      fun id imported => absurd imported (refused id)⟩

def nested : Workspace := .new Document.delicate "---\nname: other\n---\nApp:" (.newYear 1)

def crowded : Collection :=
  (single (.new (.named "Q1: \"north\"") "" (.newYear 2)) .standard).create none (.newYear 3)

theorem importShared_nested :
    crowded.ids.Nodup ∧ nested.header.Writable ∧ (Stamp.newYear 4).id ∉ crowded.ids ∧
      ∃ w, (crowded.importShared nested.rawText (some .rename) (.newYear 4)).1.current? = some w ∧
        w.content = nested.content ∧ w.name ∉ crowded.names := by
  have distinct : crowded.ids.Nodup := by decide
  have fresh : (Stamp.newYear 4).id ∉ crowded.ids := by decide
  have taken : nested.name ∈ crowded.names := by decide
  have writable : nested.header.Writable := Document.writable_delicate
  obtain ⟨imported, received⟩ := importShared_rawText distinct writable fresh (some .rename)
  obtain ⟨id, outcome⟩ := imported.2 ⟨by simp, by simp⟩
  obtain ⟨w, current, -, content, -, -, name⟩ := received id outcome
  rw [if_pos ⟨rfl, taken⟩] at name
  exact ⟨distinct, writable, fresh, w, current, content, name.2⟩

end Collection

end Roadmap
