import Roadmap.Proofs.Plan.RoundTrip
import Roadmap.Proofs.Workspace.EditLoop

namespace Roadmap

open Text

theorem Header.getLast?_write {value : List Char} (nonempty : value ≠ []) :
    ∃ c, (Value.write value).getLast? = some c ∧ c ≠ ':' := by
  unfold Value.write
  split
  · exact ⟨'"', List.getLast?_concat, by decide⟩
  · next plain =>
    simp only [Value.needsQuotes, Bool.or_eq_true, not_or, Bool.not_eq_true] at plain
    refine ⟨_, List.getLast?_eq_some_getLast nonempty, fun colon => ?_⟩
    have delicate := List.any_eq_false.1 plain.1.1 _ (List.getLast_mem nonempty)
    simp [Value.isDelicate, colon] at delicate

theorem Header.getLast?_trim_writeField (key : String) {value : String} (nonempty : value ≠ "") :
    ∃ c, (trim (writeField key value)).getLast? = some c ∧ c ≠ ':' := by
  have chars : value.toList ≠ [] := by simpa using nonempty
  obtain ⟨c, last, other⟩ := getLast?_write chars
  have colon : isBlank ':' = false := by decide
  have written : Value.write value.toList ≠ [] := by
    intro none
    simp [none] at last
  have spaced : (' ' :: Value.write value.toList).getLast? = some c := by
    rw [List.getLast?_cons_of_ne_nil written, last]
  have solid : trimEnd (' ' :: Value.write value.toList) = ' ' :: Value.write value.toList := by
    apply trimEnd_eq_self
    rw [List.getLast?_cons_of_ne_nil written]
    exact (trimmed_write _).2
  refine ⟨c, ?_, other⟩
  rw [writeField_eq, trim_append_cons colon, solid, List.getLast?_append_of_ne_nil _ (by simp),
    List.getLast?_cons_of_ne_nil (by simp), spaced]

namespace Plan

theorem ofText?_cases {line : List Char} (last : ∀ c ∈ (trim line).getLast?, c ≠ ':') :
    Line.ofText? line = none ∨ ∃ p, Line.ofText? line = some (.phase p) := by
  unfold Line.ofText?
  split
  · exact .inl rfl
  · next rest dash =>
    cases phase? (trim rest) with
    | none => exact .inl rfl
    | some p => exact .inr ⟨p, rfl⟩
  · split
    · next colon => exact absurd rfl (last ':' colon)
    · exact .inl rfl

theorem assemble_append_of_phases {front : List Line}
    (orphans : ∀ line ∈ front, ∃ p, line = .phase p) (rest : List Line) :
    (assemble (front ++ rest)).2 = (assemble rest).2 := by
  induction front with
  | nil => rfl
  | cons line front ih =>
    obtain ⟨p, rfl⟩ := orphans line List.mem_cons_self
    rw [List.cons_append, assemble]
    exact ih fun other member => orphans other (List.mem_cons_of_mem _ member)

theorem ofText?_delimiter : Line.ofText? Document.delimiter = none := by
  have dash : isBlank '-' = false := by decide
  simp [Line.ofText?, Document.delimiter, trim, trimStart, trimEnd, dash, phase?, cut]

/-- The lines of a header are no part of the roadmap below it. -/
theorem parse_document {h : Header} (oneLine : h.OneLine) (content : String) :
    parse (h.document content) = parse content := by
  by_cases fields : h.writtenFields = []
  · rw [Document.document_of_unwritten fields]
  let front := h.writtenFields.map fun field => Header.writeField field.1 field.2
  have nonempty : front ≠ [] := by simpa [front] using fields
  have single : ∀ line ∈ front, '\n' ∉ line := Document.newline_not_mem_fieldLines oneLine
  have whole : meaningful (h.document content).toList =
      front.filterMap Line.ofText? ++ meaningful content.toList := by
    rw [meaningful, Document.toList_document fields,
      pieces_joined_append nonempty single, pieces_append_mark Document.newline_not_mem_delimiter,
      List.filterMap_append, List.filterMap_cons_none ofText?_delimiter]
    rfl
  rw [parse, parse, whole, assemble_append_of_phases]
  intro line member
  obtain ⟨text, among, read⟩ := List.mem_filterMap.1 member
  obtain ⟨field, written, rfl⟩ := List.mem_map.1 among
  have nonempty : field.2 ≠ "" := by simpa using (List.mem_filter.1 written).2
  obtain ⟨c, last, other⟩ := Header.getLast?_trim_writeField field.1 nonempty
  have ending : ∀ d ∈ (trim (Header.writeField field.1 field.2)).getLast?, d ≠ ':' := by
    intro d last'
    rw [last] at last'
    cases last'
    exact other
  rcases ofText?_cases ending with none | ⟨p, phase⟩
  · rw [none] at read
    cases read
  · exact ⟨p, Option.some_inj.1 (read.symm.trans phase)⟩

theorem colon_mem_writeLines {projects : List Project} :
    ∀ line ∈ writeLines projects, ':' ∈ line := by
  intro line member
  obtain ⟨p, -, written⟩ := List.mem_flatMap.1 member
  rcases List.mem_cons.1 written with rfl | written
  · simp
  · obtain ⟨phase, -, rfl⟩ := List.mem_map.1 written
    simp [writePhase_eq]

end Plan

namespace Document

theorem parse_write {projects : List Project} (canonical : Plan.Canonical projects) :
    parse (Plan.write projects) = ⟨none, Plan.write projects⟩ := by
  apply parse_of_uncut
  apply cutLines_eq_none
  intro line member
  rw [Plan.write, String.toList_ofList] at member
  obtain ⟨part, among, shape⟩ :=
    mem_lines_joined (Plan.newline_not_mem_writeLines canonical) member
  have colon := Plan.colon_mem_writeLines part among
  rcases shape with rfl | rfl
  · exact Header.isDelimiter_of_colon colon
  · exact Header.isDelimiter_of_colon (List.mem_append_left _ colon)

theorem content_document {h : Header} (oneLine : h.OneLine) (fields : h.writtenFields ≠ [])
    (content : String) :
    (parse (h.document content)).content = content ∨
      (parse (h.document content)).content = h.document content := by
  rw [parse, cutLines_document oneLine fields]
  simp only [Option.bind_eq_bind, Option.bind_some]
  cases header? h.writtenLines with
  | none => exact .inr rfl
  | some header => exact .inl (by simp [flatten_lines])

theorem parse_content_document {h : Header} (oneLine : h.OneLine) {projects : List Project}
    (canonical : Plan.Canonical projects) :
    Plan.parse (parse (h.document (Plan.write projects))).content = projects := by
  by_cases fields : h.writtenFields = []
  · rw [document_of_unwritten fields, parse_write canonical, Plan.parse_write canonical]
  · rcases content_document oneLine fields (Plan.write projects) with below | whole
    · rw [below, Plan.parse_write canonical]
    · rw [whole, Plan.parse_document oneLine, Plan.parse_write canonical]

end Document

theorem Schedule.projects_ofContent (content : String) (today : Calendar.Day) :
    (ofContent content today).projects = Plan.parse content := rfl

namespace Collection

/-- Edited projects are seen in the content and in the whole text alike, whether or not the header
is read as one; the header stays. No line of a header is ever part of a roadmap, nor a roadmap that
is written a header. -/
theorem schedule_updateProjects {c : Collection} (sound : c.Sound)
    (oneLine : ∀ w ∈ c.current?, w.header.OneLine) {projects : List Project}
    (canonical : Plan.Canonical projects) (time : Timestamp) :
    ∃ before after, c.current? = some before ∧
      (c.updateProjects projects time).current? = some after ∧ after.header = before.header ∧
      (∀ today, (after.schedule today).projects = projects ∧
        (Schedule.ofDocument (c.updateProjects projects time).currentRawText today).projects =
          projects) ∧
      (∀ content, Plan.parse (after.header.document content) = Plan.parse content) ∧
      Document.parse (Plan.write projects) = ⟨none, Plan.write projects⟩ := by
  obtain ⟨w, current, -, -⟩ := exists_current sound
  have changed : (c.updateProjects projects time).current? =
      some { w with content := Plan.write projects, updatedAt := time } := by
    have updated : (c.updateProjects projects time).current? =
        c.current?.map fun w => { w with content := Plan.write projects, updatedAt := time } :=
      current?_updateCurrent c fun _ => rfl
    rw [updated, current, Option.map_some]
  have single := oneLine w current
  refine ⟨w, _, current, changed, rfl, fun today => ⟨?_, ?_⟩, ?_, Document.parse_write canonical⟩
  · rw [Workspace.schedule, Schedule.projects_ofContent, Plan.parse_write canonical]
  · rw [currentRawText_eq changed, Schedule.ofDocument, Schedule.projects_ofContent]
    exact Document.parse_content_document single canonical
  · exact Plan.parse_document single

/-- A workspace without a name, with a field that reads like a phase and one that reads like a
heading. -/
def disguised : Collection :=
  single (.new ⟨"", none, some "Web:", none,
    ⟨[("- Design, 2025-01, 2025-02", "Ann 1"), ("---", "App:")], by decide⟩⟩ "" (.newYear 1))
    .standard

theorem schedule_disguised :
    disguised.Sound ∧ (∀ w ∈ disguised.current?, w.header.OneLine) ∧
      Plan.Canonical (Plan.parse "App:\n- Build, --, 2025-04: Bo 0.5") ∧
      (Schedule.ofDocument (disguised.updateProjects
        (Plan.parse "App:\n- Build, --, 2025-04: Bo 0.5") (Stamp.newYear 2).time).currentRawText
        (Stamp.newYear 2).time.day).projects = Plan.parse "App:\n- Build, --, 2025-04: Bo 0.5" := by
  have sound : disguised.Sound := sound_single _ _
  have oneLine : ∀ w ∈ disguised.current?, w.header.OneLine := by
    intro w current
    cases current
    simp [Header.OneLine, Workspace.new]
  have canonical := Plan.canonical_parse "App:\n- Build, --, 2025-04: Bo 0.5"
  obtain ⟨_, _, -, -, -, views, -⟩ :=
    schedule_updateProjects sound oneLine canonical (Stamp.newYear 2).time
  exact ⟨sound, oneLine, canonical, (views _).2⟩

end Collection

end Roadmap
