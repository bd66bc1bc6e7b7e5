import Roadmap.Proofs.Header.RoundTrip
import Roadmap.Proofs.Workspace.Run

namespace Roadmap

namespace Header

structure Tidy (h : Header) : Prop where
  plain : h.Plain
  known : h.filled = { h with extra := h.extra.filled }

structure Settled (h : Header) : Prop extends Tidy h where
  written : h.writtenFields ≠ []

theorem tidy_named (name : String) : (named name).Tidy :=
  ⟨Document.plain_named name, rfl⟩

theorem Tidy.rename {h : Header} (tidy : h.Tidy) (name : String) :
    { h with name := name }.Tidy := by
  refine ⟨tidy.plain, ?_⟩
  have known := tidy.known
  simp only [filled, mk.injEq, true_and, and_true] at known ⊢
  exact known

theorem Tidy.settled {h : Header} (tidy : h.Tidy) (named : h.name ≠ "") : h.Settled :=
  ⟨tidy, Document.writtenFields_ne_nil named⟩

theorem known_set {h : Header} (known : h.filled = { h with extra := h.extra.filled })
    (key value : String) :
    (h.set key value).filled =
      { h.set key value with extra := (h.set key value).extra.filled } := by
  have once : (nonEmpty? value).bind nonEmpty? = nonEmpty? value := bind_nonEmpty? (some value)
  simp only [filled, mk.injEq, true_and, and_true] at known
  unfold set
  split_ifs <;> simp [filled, known, once]

theorem known_setAll {h : Header} (known : h.filled = { h with extra := h.extra.filled })
    (fields : List (String × String)) :
    (h.setAll fields).filled =
      { h.setAll fields with extra := (h.setAll fields).extra.filled } := by
  induction fields generalizing h with
  | nil => exact known
  | cons field rest ih => exact ih (known_set known field.1 field.2)

theorem tidy_of_parse {text : String} {h : Header} (read : (Document.parse text).header = some h) :
    h.Tidy := by
  refine ⟨(Document.writable_of_parse read).plain, ?_⟩
  obtain ⟨before, after, -, fields⟩ := Document.header?_of_parse read
  simp only [Document.header?] at fields
  split at fields
  · cases fields
  · cases fields
    exact known_setAll (tidy_named "").known _

theorem settled_of_parse {text : String} {h : Header}
    (read : (Document.parse text).header = some h) : h.Settled :=
  (tidy_of_parse read).settled (Document.writable_of_parse read).named

theorem settled_withCreatedAt (name : String) {date : String} (nonempty : date ≠ "") :
    ((named name).withCreatedAt date).Settled := by
  refine ⟨⟨Document.plain_named name, ?_⟩, ?_⟩
  · simp [filled, withCreatedAt, named, nonEmpty?, nonempty]
  · have field : ("createdAt", date) ∈ ((named name).withCreatedAt date).writtenFields := by
      simp [writtenFields, fields, knownKeys, get?, withCreatedAt, nonempty]
    exact List.ne_nil_of_mem field

end Header

theorem today_ne_empty (stamp : Stamp) : stamp.today ≠ "" := by
  intro empty
  have chars := congrArg String.toList empty
  simp [Stamp.today, Calendar.Day.toString, Calendar.Day.write] at chars

theorem uniqueName_ne_empty {base : String} (nonempty : base ≠ "") (existing : List String) :
    uniqueName base existing ≠ "" := by
  have numbered_ne : ∀ n, numbered base n ≠ "" := by
    intro n
    cases n with
    | zero => exact nonempty
    | succ n => simp [numbered]
  unfold uniqueName
  cases found : ((List.range (existing.length + 1)).map (numbered base)).find? (· ∉ existing) with
  | none => exact nonempty
  | some name =>
    obtain ⟨n, -, rfl⟩ := List.mem_map.1 (List.mem_of_find?_eq_some found)
    exact numbered_ne n

namespace Collection

theorem incomingName_ne_empty {c : Collection} (shared : c.config.sharedName ≠ "") (text : String) :
    c.incomingName (.parse text) ≠ "" := by
  unfold incomingName
  cases read : (Document.parse text).header with
  | none => exact shared
  | some h => exact (Document.writable_of_parse read).named

theorem imported_ne_empty {c : Collection} (shared : c.config.sharedName ≠ "") {text name : String}
    (chosen : name = c.incomingName (.parse text) ∨
      name = uniqueName (c.incomingName (.parse text)) c.names) : name ≠ "" := by
  have incoming := incomingName_ne_empty shared text
  rcases chosen with rfl | rfl
  · exact incoming
  · exact uniqueName_ne_empty incoming _

theorem tidy_imported (text : String) : ((Document.parse text).header.getD (.named "")).Tidy := by
  cases read : (Document.parse text).header with
  | none => exact Header.tidy_named ""
  | some h => exact Header.tidy_of_parse read

theorem settled_of_brings {c : Collection} (shared : c.config.sharedName ≠ "") {action : Action}
    {h : Header} (brings : Brings c action h) : h.Settled := by
  cases action with
  | create name stamp =>
    rw [brings]
    exact Header.settled_withCreatedAt _ (today_ne_empty stamp)
  | updateRaw text time => exact Header.settled_of_parse brings
  | importShared text resolution stamp =>
    obtain ⟨name, chosen, rfl⟩ := brings
    exact ((tidy_imported text).rename name).settled (imported_ne_empty shared chosen)
  | delete | switch | updateContent | updateProjects => exact brings.elim

structure Settled (c : Collection) : Prop where
  shared : c.config.sharedName ≠ ""
  headers : ∀ w ∈ c.workspaces, w.header.Settled

theorem settled_apply {c : Collection} (settled : c.Settled) (action : Action) :
    (c.apply action).Settled := by
  constructor
  · rw [config_apply]
    exact settled.shared
  · intro w member
    rcases header_of_apply member with ⟨old, before, same⟩ | brings
    · rw [same]
      exact settled.headers old before
    · exact settled_of_brings settled.shared brings

theorem settled_run {c : Collection} (settled : c.Settled) (actions : List Action) :
    (c.run actions).Settled :=
  run_induction Settled (fun _ action _ settled => settled_apply settled action) settled

theorem settled_sample (stamp : Stamp) : (sample .standard stamp).Settled := by
  refine ⟨by simp [sample, single, Config.standard], fun w member => ?_⟩
  rw [List.mem_singleton.1 member]
  exact Header.settled_withCreatedAt _ (today_ne_empty stamp)

structure Named (c : Collection) : Prop where
  default : c.config.defaultName ≠ ""
  shared : c.config.sharedName ≠ ""
  names : ∀ w ∈ c.workspaces, w.name ≠ ""

theorem name_ne_empty_of_brings {c : Collection} (named : c.Named) {action : Action}
    (given : ∀ stamp, action ≠ .create (some "") stamp) {h : Header} (brings : Brings c action h) :
    h.name ≠ "" := by
  cases action with
  | create name stamp =>
    have base : name.getD c.config.defaultName ≠ "" := by
      cases name with
      | none => exact named.default
      | some name => exact fun empty => given stamp (by rw [← empty]; rfl)
    rw [brings]
    exact uniqueName_ne_empty base _
  | updateRaw text time => exact (Document.writable_of_parse brings).named
  | importShared text resolution stamp =>
    obtain ⟨name, chosen, rfl⟩ := brings
    exact imported_ne_empty named.shared chosen
  | delete | switch | updateContent | updateProjects => exact brings.elim

theorem named_apply {c : Collection} (named : c.Named) {action : Action}
    (given : ∀ stamp, action ≠ .create (some "") stamp) : (c.apply action).Named := by
  constructor
  · rw [config_apply]
    exact named.default
  · rw [config_apply]
    exact named.shared
  · intro w member
    rcases header_of_apply member with ⟨old, before, same⟩ | brings
    · rw [Workspace.name, same]
      exact named.names old before
    · exact name_ne_empty_of_brings named given brings

theorem named_run {c : Collection} (named : c.Named) {actions : List Action}
    (given : ∀ action ∈ actions, ∀ stamp, action ≠ .create (some "") stamp) :
    (c.run actions).Named :=
  run_induction Named (fun _ action member named => named_apply named (given action member)) named

theorem named_sample (stamp : Stamp) : (sample .standard stamp).Named := by
  refine ⟨by simp [sample, single, Config.standard], by simp [sample, single, Config.standard], ?_⟩
  intro w member
  rw [List.mem_singleton.1 member]
  simp [Workspace.name, Workspace.new, Header.withCreatedAt, Header.named, Config.standard]

theorem updateCurrent_congr {c : Collection} {w : Workspace} (current : c.current? = some w)
    {change other : Workspace → Workspace} (same : change w = other w) :
    c.updateCurrent change = c.updateCurrent other := by
  rw [current?] at current
  simp only [updateCurrent, mk.injEq, and_true]
  apply List.ext_getElem?
  intro i
  rw [List.getElem?_modify, List.getElem?_modify]
  split
  · next here =>
    rw [← here, current]
    simp [same]
  · rfl

def tidied (c : Collection) (time : Timestamp) : Collection :=
  c.updateCurrent fun w =>
    { w with header := { w.header with extra := w.header.extra.filled }, updatedAt := time }

theorem parse_rawText {w : Workspace} (settled : w.header.Settled) :
    Document.parse w.rawText =
      if w.name = "" then ⟨none, w.rawText⟩
      else ⟨some { w.header with extra := w.header.extra.filled }, w.content⟩ := by
  rw [Workspace.rawText, Document.parse_document_of_plain settled.plain settled.written,
    settled.known]
  rfl

theorem rawText_ne_content {w : Workspace} (settled : w.header.Settled) :
    w.rawText ≠ w.content := by
  intro same
  -- The lines of the header come on top of the content.
  have length := congrArg (fun text : String => text.toList.length) same
  simp only [Workspace.rawText, Document.toList_document settled.written, List.length_append,
    List.length_cons] at length
  omega

theorem currentRawText_eq {c : Collection} {w : Workspace} (current : c.current? = some w) :
    c.currentRawText = w.rawText := by
  rw [currentRawText, current]
  rfl

theorem updateRaw_currentRawText {c : Collection} {w : Workspace} (current : c.current? = some w)
    (settled : w.header.Settled) (named : w.name ≠ "") (time : Timestamp) :
    c.updateRaw c.currentRawText time = c.tidied time := by
  rw [currentRawText_eq current]
  apply updateCurrent_congr current
  simp only [parse_rawText settled, if_neg named, Option.getD_some]

/-- Without a name the lines of the header become content. -/
theorem currentContent_updateRaw {c : Collection} {w : Workspace} (current : c.current? = some w)
    (settled : w.header.Settled) (unnamed : w.name = "") (time : Timestamp) :
    (c.updateRaw c.currentRawText time).currentContent = c.currentRawText := by
  have changed : (c.updateRaw c.currentRawText time).current? = c.current?.map _ :=
    current?_updateCurrent c fun _ => rfl
  rw [currentContent, changed, currentRawText_eq current, current]
  simp only [Option.map_some, Option.getD_some, parse_rawText settled, if_pos unnamed]

def reached (stamp : Stamp) (actions : List Action) : Collection :=
  (sample .standard stamp).run actions

/-- In every collection that is reached, taking back the current text is the identity, up to empty
fields and the time, if the current workspace has a name, and otherwise changes its content. It has
a name unless a workspace was created under the empty name. -/
theorem updateRaw_reached (stamp : Stamp) (actions : List Action) (time : Timestamp) :
    (∃ w, (reached stamp actions).current? = some w ∧
      (w.name ≠ "" →
        (reached stamp actions).updateRaw (reached stamp actions).currentRawText time =
          (reached stamp actions).tidied time) ∧
      (w.name = "" →
        ((reached stamp actions).updateRaw (reached stamp actions).currentRawText
          time).currentContent ≠ w.content)) ∧
      ((∀ action ∈ actions, ∀ other, action ≠ .create (some "") other) →
        (reached stamp actions).updateRaw (reached stamp actions).currentRawText time =
          (reached stamp actions).tidied time) := by
  have sound : (reached stamp actions).Sound := sound_run (sound_single _ _) actions
  have headers : (reached stamp actions).Settled := settled_run (settled_sample stamp) actions
  obtain ⟨w, current, member, -⟩ := exists_current sound
  have settled := headers.headers w member
  refine ⟨⟨w, current, fun named => ?_, fun unnamed => ?_⟩, fun given => ?_⟩
  · exact updateRaw_currentRawText current settled named time
  · rw [currentContent_updateRaw current settled unnamed, currentRawText_eq current]
    exact rawText_ne_content settled
  · have named : (reached stamp actions).Named := named_run (named_sample stamp) given
    exact updateRaw_currentRawText current settled (named.names w member) time

def unnamed : Collection := reached (.newYear 1) [.create (some "") (.newYear 2)]

theorem updateRaw_unnamed :
    unnamed.currentContent = "" ∧
      (unnamed.updateRaw unnamed.currentRawText (Stamp.newYear 3).time).currentContent =
        "createdAt: 2026-01-01\n---\n" := by
  constructor
  · rfl
  · rfl

end Collection

end Roadmap
