import Mathlib.Data.List.Forall2
import Roadmap.Proofs.Header.RoundTrip
import Roadmap.Schedule.Basic

namespace Roadmap

namespace Text

theorem trim_around {before after : List Char} (left : ∀ c ∈ before, isBlank c = true)
    (right : ∀ c ∈ after, isBlank c = true) (line : List Char) :
    trim (before ++ line ++ after) = trim line := by
  rw [← trim_trimEnd, trimEnd_append_blank right, trim_trimEnd, trim_blank_append left]

def Around (line wide : List Char) : Prop :=
  ∃ before after, wide = before ++ line ++ after ∧
    (∀ c ∈ before, isBlank c = true) ∧ ∀ c ∈ after, isBlank c = true

theorem around_of_all {line wide : List Char} (before after : List Char)
    (whole : wide = before ++ line ++ after) (left : before.all isBlank = true)
    (right : after.all isBlank = true) : Around line wide :=
  ⟨before, after, whole, List.all_eq_true.1 left, List.all_eq_true.1 right⟩

theorem Around.trim {line wide : List Char} (around : Around line wide) :
    trim line = Text.trim wide := by
  obtain ⟨before, after, rfl, left, right⟩ := around
  exact (trim_around left right line).symm

def Padded (text padded : List Char) : Prop :=
  List.Forall₂ Around (pieces '\n' text) (pieces '\n' padded)

theorem Padded.map_trim {text padded : List Char} (wider : Padded text padded) :
    (pieces '\n' text).map trim = (pieces '\n' padded).map trim := by
  have same : List.Forall₂ (· = ·) ((pieces '\n' text).map trim) ((pieces '\n' padded).map trim) := by
    rw [List.forall₂_map_left_iff, List.forall₂_map_right_iff]
    exact wider.imp fun _ _ around => around.trim
  rwa [List.forall₂_eq_eq_eq] at same

def withReturns (text : List Char) : List Char :=
  text.flatMap fun c => if c = '\n' then ['\r', '\n'] else [c]

theorem forall₂_withReturns (text : List Char) :
    List.Forall₂ (fun line wide => wide = line ∨ wide = line ++ ['\r'])
      (pieces '\n' text) (pieces '\n' (withReturns text)) := by
  -- Blanks in front of a line would not stay in front when a character is put before it.
  induction text with
  | nil => simp [withReturns, pieces]
  | cons c rest ih =>
    by_cases feed : c = '\n'
    · have step : withReturns (c :: rest) = ['\r'] ++ '\n' :: withReturns rest := by
        simp [withReturns, feed]
      rw [step, pieces_append_mark (by simp), feed, pieces, if_pos rfl]
      exact .cons (.inr rfl) ih
    · have step : withReturns (c :: rest) = c :: withReturns rest := by
        simp [withReturns, feed]
      rw [step, pieces, pieces, if_neg feed, if_neg feed]
      cases short : pieces '\n' rest with
      | nil => exact absurd short (pieces_ne_nil _ _)
      | cons first others =>
        cases long : pieces '\n' (withReturns rest) with
        | nil => exact absurd long (pieces_ne_nil _ _)
        | cons first' others' =>
          rw [short, long] at ih
          obtain ⟨ending, later⟩ := List.forall₂_cons.1 ih
          refine .cons ?_ later
          rcases ending with rfl | rfl
          · exact .inl rfl
          · exact .inr rfl

theorem padded_withReturns (text : List Char) : Padded text (withReturns text) := by
  refine (forall₂_withReturns text).imp fun line wide ending => ?_
  rcases ending with rfl | rfl
  · exact ⟨[], [], by simp, by simp, by simp⟩
  · have blank : isBlank '\r' = true := by decide
    exact ⟨[], ['\r'], by simp, by simp, by simp [blank]⟩

/-- The second lines are the first with other blanks around them, and with blank lines put in and
left out. -/
inductive Respaced : List (List Char) → List (List Char) → Prop where
  | done : Respaced [] []
  | line {line line' : List Char} {lines lines' : List (List Char)} (same : trim line = trim line')
      (rest : Respaced lines lines') : Respaced (line :: lines) (line' :: lines')
  | inserted {blank : List Char} {lines lines' : List (List Char)}
      (empty : ∀ c ∈ blank, isBlank c = true) (rest : Respaced lines lines') :
      Respaced lines (blank :: lines')
  | deleted {blank : List Char} {lines lines' : List (List Char)}
      (empty : ∀ c ∈ blank, isBlank c = true) (rest : Respaced lines lines') :
      Respaced (blank :: lines) lines'

end Text

open Text

namespace Plan

theorem ofText?_trim (line : List Char) : Line.ofText? (trim line) = Line.ofText? line := by
  rw [Line.ofText?, Line.ofText?, trim_trim]

theorem ofText?_of_blank {line : List Char} (blank : ∀ c ∈ line, isBlank c = true) :
    Line.ofText? line = none := by
  have nothing : trim line = [] :=
    trimEnd_eq_nil_iff.2 fun c member => blank c (mem_of_mem_trimStart member)
  rw [Line.ofText?, nothing]

theorem filterMap_ofText?_of_respaced {lines lines' : List (List Char)}
    (respaced : Respaced lines lines') :
    lines.filterMap Line.ofText? = lines'.filterMap Line.ofText? := by
  induction respaced with
  | done => rfl
  | @line line line' lines lines' same rest ih =>
    have means : Line.ofText? line = Line.ofText? line' := by
      rw [← ofText?_trim line, same, ofText?_trim]
    rw [List.filterMap_cons, List.filterMap_cons, means, ih]
  | inserted empty rest ih => rw [List.filterMap_cons_none (ofText?_of_blank empty), ih]
  | deleted empty rest ih => rw [List.filterMap_cons_none (ofText?_of_blank empty), ih]

theorem meaningful_joined {parts : List (List Char)} (absent : ∀ part ∈ parts, '\n' ∉ part) :
    meaningful (joined ['\n'] parts) = parts.filterMap Line.ofText? := by
  by_cases none : parts = []
  · -- No lines at all join to one empty line, which means nothing.
    rw [none]
    rfl
  · rw [meaningful, pieces_joined none absent]

end Plan

namespace Document

open Plan

theorem isDelimiter_trim (line : List Char) : isDelimiter (trim line) = isDelimiter line := by
  rw [isDelimiter, isDelimiter, trim_trim]

theorem cutLines_map_trim (lines : List (List Char)) :
    cutLines (lines.map trim) =
      (cutLines lines).map fun (before, after) => (before.map trim, after.map trim) := by
  induction lines with
  | nil => rfl
  | cons line lines ih =>
    rw [List.map_cons, cutLines, cutLines, isDelimiter_trim, ih]
    split
    · rfl
    · simp only [Option.map_map, Function.comp_def, List.map_cons]

theorem field?_trim (line : List Char) : field? (trim line) = field? line := by
  rw [field?, field?, trim_trim]

theorem header?_congr {lines lines' : List (List Char)} (same : lines.map trim = lines'.map trim) :
    header? lines = header? lines' := by
  have fields : ∀ all : List (List Char), (all.map trim).filterMap field? = all.filterMap field? := by
    simp [field?_trim]
  rw [header?, header?, ← fields lines, same, fields]

theorem cutLines_lines_joined {parts : List (List Char)} (absent : ∀ part ∈ parts, '\n' ∉ part) :
    cutLines (lines (joined ['\n'] parts)) =
      (cutLines parts).map fun (before, after) =>
        (before.map (· ++ ['\n']), lines (joined ['\n'] after)) := by
  induction parts with
  | nil => rfl
  | cons first others ih =>
    have head := absent first List.mem_cons_self
    have later := ih fun part member => absent part (List.mem_cons_of_mem _ member)
    by_cases last : others = []
    · subst last
      by_cases empty : first = []
      · rw [empty]
        rfl
      · rw [joined, lines_of_not_mem empty head, cutLines, cutLines]
        split
        · rfl
        · rfl
    · have same : isDelimiter (first ++ ['\n']) = isDelimiter first := by
        rw [isDelimiter, isDelimiter, trim_append_newline]
      rw [joined_append last, List.append_assoc, List.singleton_append, lines_append head, cutLines,
        cutLines, same, later]
      split
      · rfl
      · simp only [Option.map_map, Function.comp_def, List.map_cons]

def told (lines : List (List Char)) : Option Header × List Line :=
  let parts? := do
    let (before, after) ← cutLines lines
    let header ← header? before
    return (header, after)
  match parts? with
  | some (header, after) => (some header, after.filterMap Line.ofText?)
  | none => (none, lines.filterMap Line.ofText?)

theorem told_map_trim (lines : List (List Char)) : told (lines.map trim) = told lines := by
  rw [told, told, cutLines_map_trim]
  cases cutLines lines with
  | none => simp [ofText?_trim]
  | some parts =>
    have fields : header? (parts.1.map trim) = header? parts.1 := header?_congr (by simp)
    simp only [Option.map_some, Option.bind_eq_bind, Option.bind_some, fields]
    cases header? parts.1 with
    | none => simp [ofText?_trim]
    | some h => simp [ofText?_trim]

theorem parse_tells (text : String) :
    ((parse text).header, meaningful (parse text).content.toList) =
      told (pieces '\n' text.toList) := by
  have absent : ∀ part ∈ pieces '\n' text.toList, '\n' ∉ part := fun _ => not_mem_of_mem_pieces
  have cuts := cutLines_lines_joined absent
  rw [joined_pieces] at cuts
  rw [parse, told, cuts]
  cases found : cutLines (pieces '\n' text.toList) with
  | none => simp [meaningful]
  | some parts =>
    have fields : header? (parts.1.map (· ++ ['\n'])) = header? parts.1 :=
      header?_congr (by simp [trim_append_newline])
    simp only [Option.map_some, Option.bind_eq_bind, Option.bind_some, fields]
    cases header? parts.1 with
    | none => simp [meaningful]
    | some h =>
      obtain ⟨ending, whole, -⟩ := cutLines_eq_some_iff.1 found
      have below : ∀ part ∈ parts.2, '\n' ∉ part := fun part member =>
        absent part (by simp [whole, member])
      simp only [Option.bind_some, Option.pure_def, flatten_lines, String.toList_ofList]
      rw [meaningful_joined below]

theorem told_eq_of_padded {text padded : String} (wider : Padded text.toList padded.toList) :
    ((parse text).header, meaningful (parse text).content.toList) =
      ((parse padded).header, meaningful (parse padded).content.toList) := by
  calc ((parse text).header, meaningful (parse text).content.toList)
      = told (pieces '\n' text.toList) := parse_tells text
    _ = told ((pieces '\n' text.toList).map trim) := (told_map_trim _).symm
    _ = told ((pieces '\n' padded.toList).map trim) := by rw [wider.map_trim]
    _ = told (pieces '\n' padded.toList) := told_map_trim _
    _ = ((parse padded).header, meaningful (parse padded).content.toList) := (parse_tells padded).symm

end Document

namespace Schedule

open Calendar

theorem ofContent_congr {content content' : String}
    (same : Plan.meaningful content.toList = Plan.meaningful content'.toList) (today : Day) :
    ofContent content today = ofContent content' today := by
  rw [ofContent, ofContent, Plan.parse, Plan.parse, same]

/-- Blanks around its lines change neither the header of a document nor its schedule; Windows line
endings are such blanks. A roadmap is the same with and without its blank lines. -/
theorem spacing_irrelevant :
    (∀ text padded : String, Padded text.toList padded.toList →
      (Document.parse text).header = (Document.parse padded).header ∧
        ∀ today, ofDocument text today = ofDocument padded today) ∧
    (∀ text, Padded text (withReturns text)) ∧
    ∀ text text' : String, Respaced (pieces '\n' text.toList) (pieces '\n' text'.toList) →
      Plan.parse text = Plan.parse text' := by
  refine ⟨fun text padded wider => ?_, padded_withReturns, fun text text' respaced => ?_⟩
  · obtain ⟨header, content⟩ := Prod.mk.inj (Document.told_eq_of_padded wider)
    exact ⟨header, fun today => ofContent_congr content today⟩
  · rw [Plan.parse, Plan.parse, Plan.meaningful, Plan.meaningful,
      Plan.filterMap_ofText?_of_respaced respaced]

def tidy : String := "name: Q1\nteam: 'A: B'\n---\nWeb:\n- Design, 2025-01, 2025-02: Ann 0.5"

/-- The same with Windows line endings, tabs around the delimiter, and a return of its own. -/
def untidy : String :=
  "name: Q1\r\r\n  team: 'A: B'\r\n\t---\u2003\r\nWeb:\r\n\r - Design, 2025-01, 2025-02: Ann 0.5 "

def loose : String :=
  "\n\r\nname: Q1\nteam: 'A: B'\n---\n\n  Web:\n\t\n- Design, 2025-01, 2025-02: Ann 0.5\n"

theorem pieces_tidy : pieces '\n' tidy.toList =
    ["name: Q1".toList, "team: 'A: B'".toList, "---".toList, "Web:".toList,
      "- Design, 2025-01, 2025-02: Ann 0.5".toList] := by
  decide +kernel

theorem padded_untidy : Padded tidy.toList untidy.toList := by
  have lines : pieces '\n' untidy.toList = ["name: Q1\r\r".toList, "  team: 'A: B'\r".toList,
      "\t---\u2003\r".toList, "Web:\r".toList,
      "\r - Design, 2025-01, 2025-02: Ann 0.5 ".toList] := by
    decide +kernel
  rw [Padded, pieces_tidy, lines]
  refine .cons ?_ (.cons ?_ (.cons ?_ (.cons ?_ (.cons ?_ .nil))))
  · exact around_of_all [] "\r\r".toList rfl rfl rfl
  · exact around_of_all "  ".toList "\r".toList rfl rfl rfl
  · exact around_of_all "\t".toList "\u2003\r".toList rfl rfl rfl
  · exact around_of_all [] "\r".toList rfl rfl rfl
  · exact around_of_all "\r ".toList " ".toList rfl rfl rfl

theorem respaced_loose : Respaced (pieces '\n' tidy.toList) (pieces '\n' loose.toList) := by
  have lines : pieces '\n' loose.toList = [[], "\r".toList, "name: Q1".toList,
      "team: 'A: B'".toList, "---".toList, [], "  Web:".toList, "\t".toList,
      "- Design, 2025-01, 2025-02: Ann 0.5".toList, []] := by
    decide +kernel
  rw [pieces_tidy, lines]
  have blank : ∀ line ∈ [[], ['\r'], ['\t']], ∀ c ∈ line, isBlank c = true := by
    simp [show isBlank '\r' = true by decide, show isBlank '\t' = true by decide]
  have empty := blank [] (by simp)
  refine .inserted empty (.inserted (blank _ (by simp)) (.line rfl (.line rfl (.line rfl ?_))))
  exact .inserted empty (.line rfl (.inserted (blank _ (by simp)) (.line rfl (.inserted empty .done))))

theorem spacing_irrelevant_tidy :
    Padded tidy.toList untidy.toList ∧
      (Document.parse tidy).header =
        some ⟨"Q1", none, none, none, ⟨[("team", "A: B")], by decide⟩⟩ ∧
      (Document.parse tidy).header = (Document.parse untidy).header ∧
      (∀ today, ofDocument tidy today = ofDocument untidy today) ∧
      Respaced (pieces '\n' tidy.toList) (pieces '\n' loose.toList) ∧
      Plan.parse tidy = Plan.parse loose := by
  obtain ⟨document, -, plan⟩ := spacing_irrelevant
  obtain ⟨header, schedule⟩ := document tidy untidy padded_untidy
  exact ⟨padded_untidy, by decide +kernel, header, schedule, respaced_loose,
    plan tidy loose respaced_loose⟩

end Schedule

end Roadmap
