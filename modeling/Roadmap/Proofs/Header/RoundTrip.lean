import Roadmap.Header.Document
import Roadmap.Proofs.Header.Filled
import Roadmap.Proofs.Text.Split
import Roadmap.Proofs.Text.Trim

namespace Roadmap.Header

open Text

def Legible (key : String) : Prop := Clean [':', '\n'] key

def Plain (h : Header) : Prop := ∀ entry ∈ h.extra.entries, Legible entry.1 ∧ entry.1 ∉ knownKeys

def OneLine (h : Header) : Prop := ∀ entry ∈ h.extra.entries, '\n' ∉ entry.1.toList

theorem Plain.oneLine {h : Header} (plain : h.Plain) : h.OneLine :=
  fun entry member => (plain entry member).1.2 '\n' (by simp)

theorem Plain.apart {h : Header} (plain : h.Plain) : h.Apart :=
  fun entry member => (plain entry member).2

structure Writable (h : Header) : Prop where
  named : h.name ≠ ""
  plain : h.Plain

theorem trimmed_write (value : List Char) : Trimmed (Value.write value) := by
  unfold Value.write
  split
  · have quote : isBlank '"' = false := by decide
    constructor
    · simp [quote]
    · rw [List.getLast?_concat]
      simp [quote]
  · next plain =>
    simp only [Value.needsQuotes, Bool.or_eq_true, not_or, Bool.not_eq_true] at plain
    obtain ⟨⟨-, first⟩, last⟩ := plain
    constructor
    · intro c head
      rw [Option.mem_def.1 head] at first
      simp only [Option.any_some, Value.isFragileEnd, Bool.or_eq_false_iff] at first
      exact first.2
    · intro c ending
      rw [Option.mem_def.1 ending] at last
      simp only [Option.any_some, Value.isFragileEnd, Bool.or_eq_false_iff] at last
      exact last.2

theorem newline_not_mem_write (value : List Char) : '\n' ∉ Value.write value := by
  unfold Value.write
  split
  · have escaped : ∀ c, '\n' ∉ Value.escape c := by
      intro c
      unfold Value.escape
      split_ifs with backslash quote feed
      · simp
      · simp
      · simp
      · simp
      · simpa using Ne.symm feed
    simp [escaped]
  · next plain =>
    intro member
    simp only [Value.needsQuotes, Bool.or_eq_true, not_or, Bool.not_eq_true] at plain
    have delicate := List.any_eq_false.1 plain.1.1 '\n' member
    simp [Value.isDelicate] at delicate

theorem legible_of_knownKeys : ∀ key ∈ knownKeys, Legible key := by
  simp [knownKeys, Legible, Clean, Trimmed]
  decide

theorem key_of_mem_writtenFields {h : Header} {field : String × String}
    (member : field ∈ h.writtenFields) : field.1 ∈ knownKeys ∨ field ∈ h.extra.entries := by
  rw [writtenFields_eq] at member
  rcases List.mem_append.1 member with known | other
  · obtain ⟨key, among, written⟩ := List.mem_flatMap.1 known
    obtain ⟨value, -, rfl⟩ := Option.map_eq_some_iff.1 (Option.mem_toList.1 written)
    exact .inl among
  · exact .inr (Fields.mem_of_mem_filled other)

theorem legible_of_mem_writtenFields {h : Header} (plain : h.Plain) {field : String × String}
    (member : field ∈ h.writtenFields) : Legible field.1 := by
  rcases key_of_mem_writtenFields member with known | other
  · exact legible_of_knownKeys field.1 known
  · exact (plain field other).1

theorem newline_not_mem_key {h : Header} (oneLine : h.OneLine) {field : String × String}
    (member : field ∈ h.writtenFields) : '\n' ∉ field.1.toList := by
  rcases key_of_mem_writtenFields member with known | other
  · exact (legible_of_knownKeys field.1 known).2 '\n' (by simp)
  · exact oneLine field other

theorem writeField_eq (key value : String) :
    writeField key value = key.toList ++ ':' :: (' ' :: Value.write value.toList) := by
  simp [writeField]

theorem newline_not_mem_writeField {key : String} (single : '\n' ∉ key.toList) (value : String) :
    '\n' ∉ writeField key value := by
  simp [writeField_eq, single, newline_not_mem_write]

theorem trim_writeField {key : String} (legible : Legible key) (value : String) :
    trim (writeField key value ++ ['\n']) =
      key.toList ++ ':' :: trimEnd (' ' :: Value.write value.toList ++ ['\n']) := by
  have colon : isBlank ':' = false := by decide
  rw [writeField_eq, List.append_assoc, List.cons_append, trim_append_cons colon, legible.1.start]

theorem isDelimiter_of_colon {line : List Char} (colon : ':' ∈ line) :
    Document.isDelimiter line = false := by
  have kept := mem_trim colon (by decide)
  apply decide_eq_false
  intro same
  rw [same] at kept
  simp [Document.delimiter] at kept

theorem isDelimiter_writeField (key value : String) :
    Document.isDelimiter (writeField key value ++ ['\n']) = false :=
  isDelimiter_of_colon (by simp [writeField_eq])

theorem field?_writeField {key : String} (legible : Legible key) (value : String) :
    Document.field? (writeField key value ++ ['\n']) = some (key, value) := by
  have read : trim (trimEnd (' ' :: Value.write value.toList ++ ['\n'])) =
      Value.write value.toList := by
    rw [trim_trimEnd, trim_append_newline, trim_space, trim_eq_self (trimmed_write _)]
  rw [Document.field?, trim_writeField legible, cut_append (legible.2 ':' (by simp))]
  simp only [Option.map_some, read, trim_eq_self legible.1, Value.read_write, String.ofList_toList]

def writtenLines (h : Header) : List (List Char) :=
  h.writtenFields.map fun field => writeField field.1 field.2 ++ ['\n']

end Roadmap.Header

namespace Roadmap.Document

open Text Header

theorem cutLines_append_of_not {front : List (List Char)}
    (others : ∀ other ∈ front, isDelimiter other = false) (all : List (List Char)) :
    cutLines (front ++ all) = (cutLines all).map fun (before, after) => (front ++ before, after) := by
  induction front with
  | nil => simp
  | cons first front ih =>
    obtain ⟨other, later⟩ := List.forall_mem_cons.1 others
    simp [cutLines, other, ih later, Function.comp_def]

theorem cutLines_append {line : List Char} (delimiter : isDelimiter line = true)
    {before : List (List Char)} (others : ∀ other ∈ before, isDelimiter other = false)
    (after : List (List Char)) :
    cutLines (before ++ line :: after) = some (before, after) := by
  rw [cutLines_append_of_not others, cutLines, if_pos delimiter]
  simp only [Option.map_some, List.append_nil]

theorem cutLines_eq_none {all : List (List Char)}
    (others : ∀ line ∈ all, isDelimiter line = false) : cutLines all = none := by
  have uncut := cutLines_append_of_not others []
  rwa [List.append_nil] at uncut

theorem parse_of_uncut {text : String} (uncut : cutLines (lines text.toList) = none) :
    parse text = ⟨none, text⟩ := by
  rw [parse, uncut]
  rfl

theorem newline_not_mem_delimiter : '\n' ∉ delimiter := by simp [delimiter]

theorem document_of_unwritten {h : Header} (fields : h.writtenFields = []) (content : String) :
    h.document content = content := by
  unfold Header.document
  rw [fields]
  rfl

theorem toList_document {h : Header} (fields : h.writtenFields ≠ []) (content : String) :
    (h.document content).toList =
      joined ['\n'] (h.writtenFields.map fun field => writeField field.1 field.2) ++
        '\n' :: (delimiter ++ '\n' :: content.toList) := by
  unfold Header.document
  split
  · next none => exact absurd (List.map_eq_nil_iff.1 none) fields
  · next first others same =>
    rw [same]
    simp

theorem newline_not_mem_fieldLines {h : Header} (oneLine : h.OneLine) :
    ∀ line ∈ h.writtenFields.map fun field => writeField field.1 field.2, '\n' ∉ line := by
  intro line member
  obtain ⟨field, among, rfl⟩ := List.mem_map.1 member
  exact newline_not_mem_writeField (newline_not_mem_key oneLine among) field.2

theorem lines_document {h : Header} (oneLine : h.OneLine) (fields : h.writtenFields ≠ [])
    (content : String) :
    lines (h.document content).toList =
      h.writtenLines ++ (delimiter ++ ['\n']) :: lines content.toList := by
  have single := newline_not_mem_fieldLines oneLine
  rw [toList_document fields, lines_joined (by simpa using fields) single, List.map_map,
    lines_append newline_not_mem_delimiter]
  rfl

theorem cutLines_document {h : Header} (oneLine : h.OneLine) (fields : h.writtenFields ≠ [])
    (content : String) :
    cutLines (lines (h.document content).toList) =
      some (h.writtenLines, lines content.toList) := by
  have ending : isDelimiter (delimiter ++ ['\n']) = true := by
    have dash : isBlank '-' = false := by decide
    simp [isDelimiter, delimiter, trim, trimStart, trimEnd, dash, isBlank_newline]
  rw [lines_document oneLine fields, cutLines_append ending]
  intro other member
  obtain ⟨field, among, rfl⟩ := List.mem_map.1 member
  exact isDelimiter_writeField field.1 field.2

theorem header?_writtenLines {h : Header} (plain : h.Plain) :
    header? h.writtenLines = if h.name = "" then none else some h.filled := by
  have read : h.writtenLines.filterMap field? = h.writtenFields.map id :=
    filterMap_map_of_read fun field member =>
      field?_writeField (legible_of_mem_writtenFields plain member) field.2
  have set := setAll_writtenFields plain.apart
  rw [List.map_id] at read
  rw [setAll] at set
  rw [header?, read, set]
  rfl

theorem parse_document_of_plain {h : Header} (plain : h.Plain) (fields : h.writtenFields ≠ [])
    (content : String) :
    parse (h.document content) =
      if h.name = "" then ⟨none, h.document content⟩ else ⟨some h.filled, content⟩ := by
  rw [parse, cutLines_document plain.oneLine fields]
  simp only [Option.bind_eq_bind, Option.bind_some, header?_writtenLines plain]
  by_cases unnamed : h.name = ""
  · simp [unnamed]
  · simp [unnamed, flatten_lines]

theorem writtenFields_ne_nil {h : Header} (named : h.name ≠ "") : h.writtenFields ≠ [] := by
  have first : ("name", h.name) ∈ h.writtenFields := by
    simp [writtenFields, Header.fields, knownKeys, get?, named]
  exact List.ne_nil_of_mem first

theorem parse_document {h : Header} (writable : h.Writable) (content : String) :
    parse (h.document content) = ⟨some h.filled, content⟩ := by
  rw [parse_document_of_plain writable.plain (writtenFields_ne_nil writable.named),
    if_neg writable.named]

theorem legible_of_field? {text line : List Char} (among : line ∈ lines text) {key value : String}
    (read : field? line = some (key, value)) : Legible key := by
  have single : '\n' ∉ trim line := by
    obtain ⟨front, absent, rfl | rfl⟩ := line_cases among
    · exact fun member => absent (mem_of_mem_trim member)
    · rw [trim_append_newline]
      exact fun member => absent (mem_of_mem_trim member)
  obtain ⟨⟨before, after⟩, found, same⟩ := Option.map_eq_some_iff.1 read
  obtain ⟨whole, absent⟩ := eq_append_of_cut found
  cases same
  apply clean_trim
  intro mark marks
  simp only [List.mem_cons, List.not_mem_nil, or_false] at marks
  rcases marks with rfl | rfl
  · exact absent
  · intro member
    exact single (whole ▸ List.mem_append_left _ member)

theorem cutLines_eq_some_iff {all before after : List (List Char)} :
    cutLines all = some (before, after) ↔
      ∃ line, all = before ++ line :: after ∧ isDelimiter line = true ∧
        ∀ other ∈ before, isDelimiter other = false := by
  constructor
  · intro found
    induction all generalizing before with
    | nil => cases found
    | cons first rest ih =>
      simp only [cutLines] at found
      split at found
      · next ending =>
        cases found
        exact ⟨first, rfl, ending, by simp⟩
      · next other =>
        obtain ⟨⟨front, back⟩, step, same⟩ := Option.map_eq_some_iff.1 found
        cases same
        obtain ⟨line, whole, ending, others⟩ := ih step
        exact ⟨line, congrArg (first :: ·) whole, ending,
          List.forall_mem_cons.2 ⟨by simpa using other, others⟩⟩
  · rintro ⟨line, rfl, ending, others⟩
    exact cutLines_append ending others after

theorem key_of_mem_putEntry {key value : String} {entries : List (String × String)}
    {entry : String × String} (member : entry ∈ putEntry key value entries) :
    entry.1 = key ∨ entry ∈ entries := by
  induction entries with
  | nil => simp_all [putEntry]
  | cons first rest ih =>
    simp only [putEntry] at member
    split at member
    · rcases List.mem_cons.1 member with rfl | later
      · exact .inl rfl
      · exact .inr (List.mem_cons_of_mem _ later)
    · rcases List.mem_cons.1 member with rfl | later
      · exact .inr List.mem_cons_self
      · rcases ih later with same | old
        · exact .inl same
        · exact .inr (List.mem_cons_of_mem _ old)

theorem plain_set {h : Header} (plain : h.Plain) {key : String} (legible : Legible key)
    (value : String) : (h.set key value).Plain := by
  unfold Header.set
  split_ifs with name gist description createdAt
  · exact plain
  · exact plain
  · exact plain
  · exact plain
  · intro entry member
    rcases key_of_mem_putEntry member with rfl | old
    · exact ⟨legible, by simp [knownKeys, name, gist, description, createdAt]⟩
    · exact plain entry old

theorem plain_setAll {h : Header} (plain : h.Plain) {fields : List (String × String)}
    (legible : ∀ field ∈ fields, Legible field.1) : (h.setAll fields).Plain := by
  induction fields generalizing h with
  | nil => exact plain
  | cons field rest ih =>
    exact ih (plain_set plain (legible field List.mem_cons_self) field.2) fun field member =>
      legible field (List.mem_cons_of_mem _ member)

theorem plain_named (name : String) : (Header.named name).Plain := by
  intro entry member
  cases member

theorem header?_of_parse {text : String} {h : Header} (read : (parse text).header = some h) :
    ∃ before after, cutLines (lines text.toList) = some (before, after) ∧
      header? before = some h := by
  simp only [parse] at read
  split at read
  · next header after same =>
    obtain ⟨⟨before, rest⟩, found, later⟩ := Option.bind_eq_some_iff.1 same
    obtain ⟨other, fields, kept⟩ := Option.bind_eq_some_iff.1 later
    cases kept
    cases read
    exact ⟨before, rest, found, fields⟩
  · cases read

theorem writable_of_parse {text : String} {h : Header} (read : (parse text).header = some h) :
    h.Writable := by
  obtain ⟨before, after, found, fields⟩ := header?_of_parse read
  simp only [header?] at fields
  split at fields
  · cases fields
  · next named =>
    cases fields
    refine ⟨named, plain_setAll (plain_named "") fun field member => ?_⟩
    obtain ⟨line, among, read⟩ := List.mem_filterMap.1 member
    obtain ⟨ending, whole, -⟩ := cutLines_eq_some_iff.1 found
    exact legible_of_field? (whole ▸ List.mem_append_left _ among) read

theorem document_filled (h : Header) (content : String) :
    h.filled.document content = h.document content := by
  rw [Header.document, Header.document, writtenFields_filled]

/-- Reading gives back what was written, empty values apart. Every header that was read can be
written, and from then on writing and reading change nothing any more. -/
theorem parse_document_eq :
    (∀ (h : Header) (content : String), h.Writable →
      parse (h.document content) = ⟨some h.filled, content⟩) ∧
    ∀ (text : String) (h : Header), (parse text).header = some h →
      h.Writable ∧
      parse (h.document (parse text).content) = ⟨some h.filled, (parse text).content⟩ ∧
      h.filled.document (parse text).content = h.document (parse text).content := by
  refine ⟨fun h content writable => parse_document writable content, fun text h read => ?_⟩
  have writable := writable_of_parse read
  exact ⟨writable, parse_document writable _, document_filled h _⟩

/-- A header with values that need quotes and others that are not written. -/
def delicate : Header :=
  ⟨"Q1: \"north\"", some "", some " two\nlines\\", none,
    ⟨[("empty", ""), ("team lead", "'Ann'")], by decide⟩⟩

theorem writable_delicate : delicate.Writable := by
  refine ⟨by simp [delicate], ?_⟩
  have solid : isBlank 'e' = false ∧ isBlank 'y' = false ∧ isBlank 't' = false ∧
      isBlank 'd' = false := by
    decide
  simp [Header.Plain, delicate, Legible, Clean, Trimmed, knownKeys, solid]

theorem parse_document_delicate :
    delicate.Writable ∧
      parse (delicate.document "---\nname: other\n---\n") =
        ⟨some ⟨"Q1: \"north\"", none, some " two\nlines\\", none,
            ⟨[("team lead", "'Ann'")], by decide⟩⟩,
          "---\nname: other\n---\n"⟩ ∧
      delicate.filled.Writable := by
  have first := parse_document_eq.1 delicate "---\nname: other\n---\n" writable_delicate
  refine ⟨writable_delicate, first, ?_⟩
  exact (parse_document_eq.2 _ delicate.filled (by rw [first])).1

end Roadmap.Document
