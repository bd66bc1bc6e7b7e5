import Mathlib.Data.List.Count
import Roadmap.Proofs.Plan.RoundTrip

namespace Roadmap

namespace Plan

open Text

/-- What stands before the second point of a word; all of it, if there is none. -/
def BeforeSecondPoint (word number : List Char) : Prop :=
  (number = word ∧ word.count '.' ≤ 1) ∨
    (number.count '.' = 1 ∧ ∃ rest, word = number ++ '.' :: rest)

structure Numeral (word : List Char) (x : Float) : Prop where
  letters : ∀ c ∈ word, c.isDigit = true ∨ c = '.'
  value : ∃ number, BeforeSecondPoint word number ∧ (∃ c ∈ number, c.isDigit = true) ∧
    Decimal.unsigned? number = some x ∧ Decimal.isFinite x = true

def Entry (text : List Char) (s : Share) : Prop :=
  ∃ person gap word, trim text = person ++ gap ++ word ∧
    (person ≠ [] ∧ Trimmed person) ∧ (gap ≠ [] ∧ ∀ c ∈ gap, isBlank c = true) ∧
    s.person = String.ofList person ∧ Numeral word s.portion

def Body (text : List Char) (p : Phase) : Prop :=
  ∃ head tail name start finish entries,
    text = head ++ ':' :: tail ∧ ':' ∉ head ∧
    trim head = name ++ ',' :: (start ++ ',' :: finish) ∧ ',' ∉ name ∧ ',' ∉ start ∧
    name ≠ [] ∧ start ≠ [] ∧ finish ≠ [] ∧
    p.name = String.ofList (trim name) ∧
    p.start = (if trim start = chained then none else some ⟨String.ofList (trim start)⟩) ∧
    p.finish = ⟨String.ofList (trim finish)⟩ ∧
    Separated ',' tail entries ∧ Selects Entry entries p.shares

def PhaseLine (line : List Char) (p : Phase) : Prop := ∃ body, line = '-' :: body ∧ Body body p

def HeadingLine (line : List Char) (name : String) : Prop :=
  line.head? ≠ some '-' ∧ ∃ front, line = front ++ [':'] ∧ name = String.ofList (trim front)

/-- From the projects opened so far, the last of which takes up phases, trimmed lines lead on to
the projects of the whole. -/
inductive Continues : List Project → List (List Char) → List Project → Prop where
  | done {opened : List Project} : Continues opened [] opened
  | opens {opened result : List Project} {line : List Char} {lines : List (List Char)}
      {name : String} (heading : HeadingLine line name)
      (rest : Continues (opened ++ [⟨name, []⟩]) lines result) :
      Continues opened (line :: lines) result
  | adds {opened result : List Project} {last : Project} {line : List Char}
      {lines : List (List Char)} {p : Phase} (phase : PhaseLine line p)
      (rest : Continues (opened ++ [⟨last.name, last.phases ++ [p]⟩]) lines result) :
      Continues (opened ++ [last]) (line :: lines) result
  | drops {result : List Project} {line : List Char} {lines : List (List Char)} {p : Phase}
      (phase : PhaseLine line p) (rest : Continues [] lines result) :
      Continues [] (line :: lines) result
  | passes {opened result : List Project} {line : List Char} {lines : List (List Char)}
      (noHeading : ∀ name, ¬ HeadingLine line name) (noPhase : ∀ p, ¬ PhaseLine line p)
      (rest : Continues opened lines result) : Continues opened (line :: lines) result

def Describes (text : String) (projects : List Project) : Prop :=
  ∃ lines, Separated '\n' text.toList lines ∧ Continues [] (lines.map trim) projects

theorem BeforeSecondPoint.unique {word first second : List Char}
    (before : BeforeSecondPoint word first) (before' : BeforeSecondPoint word second) :
    first = second := by
  rcases before with ⟨rfl, few⟩ | ⟨one, rest, rfl⟩ <;>
    rcases before' with ⟨rfl, few'⟩ | ⟨one', rest', same⟩
  · rfl
  · rw [same] at few
    simp [one'] at few
  · simp [one] at few'
  · -- Were one longer than the other, it would hold two points.
    rcases List.append_eq_append_iff.1 same with ⟨more, rfl, tail⟩ | ⟨more, rfl, tail⟩
    · cases more with
      | nil => simp
      | cons c more =>
        cases tail
        simp [one] at one'
    · cases more with
      | nil => simp
      | cons c more =>
        cases tail
        simp [one'] at one

theorem count_point_of_digits {digits : List Char} (digit : ∀ c ∈ digits, c.isDigit = true) :
    digits.count '.' = 0 := by
  refine List.count_eq_zero.2 fun member => ?_
  have point := digit '.' member
  simp at point

theorem digits_or_point {word : List Char} (letters : ∀ c ∈ word, c.isDigit = true ∨ c = '.') :
    (∀ c ∈ word, c.isDigit = true) ∨
      ∃ digits rest, word = digits ++ '.' :: rest ∧ ∀ c ∈ digits, c.isDigit = true := by
  cases found : cut '.' word with
  | none =>
    have absent := cut_eq_none_iff.1 found
    exact .inl fun c member =>
      (letters c member).resolve_right fun point => absent (point ▸ member)
  | some parts =>
    obtain ⟨whole, absent⟩ := eq_append_of_cut found
    refine .inr ⟨parts.1, parts.2, whole, fun c member => ?_⟩
    have inside : c ∈ word := whole ▸ List.mem_append_left _ member
    exact (letters c inside).resolve_right fun point => absent (point ▸ member)

theorem exists_beforeSecondPoint {word : List Char}
    (letters : ∀ c ∈ word, c.isDigit = true ∨ c = '.') :
    ∃ number, BeforeSecondPoint word number ∧
      portion? word = (Decimal.unsigned? number).filter Decimal.isFinite := by
  have allowed : (word.all fun c => c.isDigit || c = '.') = true := by simpa using letters
  rw [portion?, if_pos allowed]
  rcases digits_or_point letters with digit | ⟨digits, rest, rfl, digit⟩
  · refine ⟨word, .inl ⟨rfl, by simp [count_point_of_digits digit]⟩, ?_⟩
    rw [List.takeWhile_eq_self_iff.2 digit, List.dropWhile_eq_nil_iff.2 digit]
  · have later : ∀ c ∈ rest, c.isDigit = true ∨ c = '.' := fun c member =>
      letters c (by simp [member])
    rw [Decimal.takeWhile_digits_point digit, Decimal.dropWhile_digits_point digit]
    rcases digits_or_point later with place | ⟨places, more, rfl, place⟩
    · refine ⟨digits ++ '.' :: rest, .inl ⟨rfl, ?_⟩, ?_⟩
      · simp [count_point_of_digits digit, count_point_of_digits place]
      · simp only [List.takeWhile_eq_self_iff.2 place]
    · refine ⟨digits ++ '.' :: places, .inr ⟨?_, more, by simp⟩, ?_⟩
      · simp [count_point_of_digits digit, count_point_of_digits place]
      · simp only [Decimal.takeWhile_digits_point place]

theorem exists_digit_of_unsigned? {number : List Char} {x : Float}
    (value : Decimal.unsigned? number = some x) : ∃ c ∈ number, c.isDigit = true := by
  by_contra digitless
  simp only [not_exists, not_and] at digitless
  obtain ⟨parts, read, -⟩ := Option.map_eq_some_iff.1 value
  cases number with
  | nil => cases read
  | cons c rest =>
    have first := digitless c List.mem_cons_self
    rw [Decimal.digitsAndPoint?, List.takeWhile_cons_of_neg first,
      List.dropWhile_cons_of_neg first] at read
    split at read
    · next none => cases none
    · next fraction same =>
      cases same
      split at read
      · next allowed =>
        simp only [Bool.and_eq_true, List.all_eq_true, List.isEmpty_nil, Bool.true_and,
          Bool.not_eq_true', List.isEmpty_eq_false_iff] at allowed
        obtain ⟨d, more, rfl⟩ := List.exists_cons_of_ne_nil allowed.2
        exact digitless d (by simp) (allowed.1 d List.mem_cons_self)
      · cases read
    · cases read

theorem portion?_eq_some_iff {word : List Char} {x : Float} :
    portion? word = some x ↔ Numeral word x := by
  constructor
  · intro read
    have letters : ∀ c ∈ word, c.isDigit = true ∨ c = '.' := by
      unfold portion? at read
      split at read
      · next allowed => simpa using allowed
      · cases read
    obtain ⟨number, before, same⟩ := exists_beforeSecondPoint letters
    rw [same] at read
    obtain ⟨value, finite⟩ := Option.filter_eq_some_iff.1 read
    exact ⟨letters, number, before, exists_digit_of_unsigned? value, value, finite⟩
  · rintro ⟨letters, number, before, -, value, finite⟩
    obtain ⟨number', before', same⟩ := exists_beforeSecondPoint letters
    rw [same, before'.unique before]
    exact Option.filter_eq_some_iff.2 ⟨value, finite⟩

theorem share?_eq_some_iff {entry : List Char} {s : Share} :
    share? entry = some s ↔ Entry entry s := by
  constructor
  · intro read
    obtain ⟨front, whole, person, ending⟩ := lastWord_parts (trim entry)
    simp only [share?] at read
    split at read
    · cases read
    · next nonempty =>
      obtain ⟨portion, value, rfl⟩ := Option.map_eq_some_iff.1 read
      rw [List.isEmpty_iff] at nonempty
      obtain ⟨gap, parts, blank⟩ := exists_trimEnd_append front
      rw [← person] at parts
      refine ⟨(lastWord (trim entry)).1, gap, (lastWord (trim entry)).2, by rw [← parts, ← whole],
        ⟨nonempty, trimmed_lastWord (trimmed_trim entry)⟩, ⟨?_, blank⟩, rfl,
        portion?_eq_some_iff.1 value⟩
      -- Without blanks between, the person would end in the blank before the last word.
      rintro rfl
      rw [List.append_nil] at parts
      obtain ⟨c, last⟩ : ∃ c, (lastWord (trim entry)).1.getLast? = some c :=
        ⟨_, List.getLast?_eq_some_getLast nonempty⟩
      have solid := (trimmed_lastWord (trimmed_trim entry)).2 c last
      rw [← parts] at last
      simp [ending c last] at solid
  · rintro ⟨person, gap, word, whole, ⟨nonempty, trimmed⟩, ⟨apart, blank⟩, name, numeral⟩
    have solid : ∀ c ∈ word, isBlank c = false := fun c member =>
      isBlank_of_digit_or_point (numeral.letters c member)
    rw [share?, whole, lastWord_gap apart blank solid, trimmed.end]
    simp [nonempty, portion?_eq_some_iff.2 numeral, ← name]

theorem share?_trim (entry : List Char) : share? (trim entry) = share? entry := by
  rw [share?, share?, trim_trim]

theorem shares_trimEnd (text : List Char) : shares (trimEnd text) = shares text := by
  have comma : isBlank ',' = false := by decide
  have trimmed : ∀ text, shares text = ((pieces ',' text).map trim).filterMap share? := fun text => by
    rw [shares, List.filterMap_map]
    exact List.filterMap_congr fun entry _ => (share?_trim entry).symm
  rw [trimmed, trimmed, map_trim_pieces_trimEnd comma]

theorem phase?_trim (body : List Char) : phase? (trim body) = phase? body := by
  have colon : isBlank ':' = false := by decide
  cases found : cut ':' body with
  | none =>
    have absent : cut ':' (trim body) = none :=
      cut_eq_none_iff.2 fun member => cut_eq_none_iff.1 found (mem_of_mem_trim member)
    rw [phase?, phase?, found, absent]
  | some parts =>
    obtain ⟨whole, absent⟩ := eq_append_of_cut found
    have absent' : ':' ∉ trimStart parts.1 := fun member => absent (mem_of_mem_trimStart member)
    rw [whole, trim_append_cons colon, phase?, phase?, cut_append absent, cut_append absent']
    simp only [Option.bind_eq_bind, Option.bind_some, trim_trimStart, shares_trimEnd]

theorem phase?_eq_some_iff {body : List Char} {p : Phase} :
    phase? body = some p ↔ Body body p := by
  have selects : ∀ tail entries, Selects Entry (pieces ',' tail) entries ↔ entries = shares tail :=
    fun tail entries => selects_iff fun entry s => share?_eq_some_iff
  constructor
  · intro read
    obtain ⟨⟨head, tail⟩, colon, later⟩ := Option.bind_eq_some_iff.1 read
    obtain ⟨⟨name, start, finish⟩, parts, result⟩ := Option.bind_eq_some_iff.1 later
    obtain ⟨whole, free⟩ := eq_append_of_cut colon
    obtain ⟨fields, nameFree, startFree, named, started, finished⟩ := fields?_eq_some_iff.1 parts
    cases result
    exact ⟨head, tail, name, start, finish, pieces ',' tail, whole, free, fields, nameFree,
      startFree, named, started, finished, rfl, rfl, rfl, separated_iff.2 rfl,
      (selects tail _).2 rfl⟩
  · rintro ⟨head, tail, name, start, finish, entries, rfl, free, fields, nameFree, startFree,
      named, started, finished, name', start', finish', separated, selected⟩
    have parts := fields?_eq_some_iff.2 ⟨fields, nameFree, startFree, named, started, finished⟩
    rw [separated_iff.1 separated] at selected
    have own : shares tail = p.shares := ((selects tail _).1 selected).symm
    rw [phase?, cut_append free]
    simp only [Option.bind_eq_bind, Option.bind_some, parts, own]
    cases p
    simp_all

theorem ofText?_eq_phase_iff {text : List Char} {p : Phase} :
    Line.ofText? text = some (.phase p) ↔ PhaseLine (trim text) p := by
  unfold Line.ofText?
  split
  · next empty => simp [PhaseLine, empty]
  · next body same =>
    rw [phase?_trim, same, Option.map_eq_some_iff]
    constructor
    · rintro ⟨q, read, same⟩
      cases same
      exact ⟨body, rfl, phase?_eq_some_iff.1 read⟩
    · rintro ⟨body', same, means⟩
      cases same
      exact ⟨p, phase?_eq_some_iff.2 means, rfl⟩
  · next other nonempty dashless =>
    constructor
    · intro read
      split at read <;> cases read
    · rintro ⟨body, same, -⟩
      exact absurd same (dashless body)

theorem ofText?_eq_heading_iff {text : List Char} {name : String} :
    Line.ofText? text = some (.heading name) ↔ HeadingLine (trim text) name := by
  unfold Line.ofText?
  split
  · next empty => simp [HeadingLine, empty]
  · next body same => simp [HeadingLine, same]
  · next other nonempty dashless =>
    have first : (trim text).head? ≠ some '-' := by
      intro dash
      obtain ⟨body, same⟩ := List.head?_eq_some_iff.1 dash
      exact dashless body same
    constructor
    · intro read
      split at read
      · next colon =>
        obtain ⟨front, whole⟩ := List.getLast?_eq_some_iff.1 colon
        cases read
        exact ⟨first, front, whole, by rw [whole, List.dropLast_concat]⟩
      · cases read
    · rintro ⟨-, front, whole, rfl⟩
      simp [whole]

theorem ofText?_eq_none_iff {text : List Char} :
    Line.ofText? text = none ↔
      (∀ name, ¬ HeadingLine (trim text) name) ∧ ∀ p, ¬ PhaseLine (trim text) p := by
  rw [Option.eq_none_iff_forall_ne_some]
  constructor
  · intro meaningless
    exact ⟨fun name heading => meaningless _ (ofText?_eq_heading_iff.2 heading),
      fun p phase => meaningless _ (ofText?_eq_phase_iff.2 phase)⟩
  · rintro ⟨noHeading, noPhase⟩ meaning read
    cases meaning with
    | heading name => exact noHeading name (ofText?_eq_heading_iff.1 read)
    | phase p => exact noPhase p (ofText?_eq_phase_iff.1 read)

def giveLast : List Project → List Phase → List Project
  | [], _ => []
  | [last], phases => [⟨last.name, last.phases ++ phases⟩]
  | first :: others, phases => first :: giveLast others phases

theorem giveLast_concat (front : List Project) (last : Project) (phases : List Phase) :
    giveLast (front ++ [last]) phases = front ++ [⟨last.name, last.phases ++ phases⟩] := by
  induction front with
  | nil => rfl
  | cons first front ih =>
    rw [List.cons_append, giveLast, ih, List.cons_append]
    simp

theorem giveLast_nil (projects : List Project) : giveLast projects [] = projects := by
  rcases List.eq_nil_or_concat projects with rfl | ⟨front, last, rfl⟩
  · rfl
  · rw [List.concat_eq_append, giveLast_concat, List.append_nil]

theorem assemble_heading (name : String) (rest : List Line) :
    assemble (.heading name :: rest) = ([], ⟨name, (assemble rest).1⟩ :: (assemble rest).2) := rfl

theorem assemble_phase (p : Phase) (rest : List Line) :
    assemble (.phase p :: rest) = (p :: (assemble rest).1, (assemble rest).2) := rfl

def continued (opened : List Project) (lines : List Line) : List Project :=
  giveLast opened (assemble lines).1 ++ (assemble lines).2

theorem continued_nil (opened : List Project) : continued opened [] = opened := by
  rw [continued, assemble, giveLast_nil, List.append_nil]

theorem continued_heading (opened : List Project) (name : String) (rest : List Line) :
    continued opened (.heading name :: rest) = continued (opened ++ [⟨name, []⟩]) rest := by
  simp [continued, assemble_heading, giveLast_nil, giveLast_concat]

theorem continued_phase (front : List Project) (last : Project) (p : Phase) (rest : List Line) :
    continued (front ++ [last]) (.phase p :: rest) =
      continued (front ++ [⟨last.name, last.phases ++ [p]⟩]) rest := by
  simp [continued, assemble_phase, giveLast_concat]

theorem continued_orphan (p : Phase) (rest : List Line) :
    continued [] (.phase p :: rest) = continued [] rest := rfl

theorem eq_continued_of_continues {lines : List (List Char)} {opened result : List Project}
    (continues : Continues opened (lines.map trim) result) :
    result = continued opened (lines.filterMap Line.ofText?) := by
  generalize trimmed : lines.map trim = all at continues
  induction continues generalizing lines with
  | done =>
    rw [List.map_eq_nil_iff.1 trimmed, List.filterMap_nil, continued_nil]
  | opens heading rest ih =>
    obtain ⟨line, lines, rfl, rfl, rfl⟩ := List.map_eq_cons_iff.1 trimmed
    rw [List.filterMap_cons_some (ofText?_eq_heading_iff.2 heading), continued_heading, ih rfl]
  | adds phase rest ih =>
    obtain ⟨line, lines, rfl, rfl, rfl⟩ := List.map_eq_cons_iff.1 trimmed
    rw [List.filterMap_cons_some (ofText?_eq_phase_iff.2 phase), continued_phase, ih rfl]
  | drops phase rest ih =>
    obtain ⟨line, lines, rfl, rfl, rfl⟩ := List.map_eq_cons_iff.1 trimmed
    rw [List.filterMap_cons_some (ofText?_eq_phase_iff.2 phase), continued_orphan, ih rfl]
  | passes noHeading noPhase rest ih =>
    obtain ⟨line, lines, rfl, rfl, rfl⟩ := List.map_eq_cons_iff.1 trimmed
    rw [List.filterMap_cons_none (ofText?_eq_none_iff.2 ⟨noHeading, noPhase⟩), ih rfl]

theorem continues_continued (opened : List Project) (lines : List (List Char)) :
    Continues opened (lines.map trim) (continued opened (lines.filterMap Line.ofText?)) := by
  induction lines generalizing opened with
  | nil =>
    rw [List.filterMap_nil, continued_nil]
    exact .done
  | cons line lines ih =>
    rw [List.map_cons]
    cases read : Line.ofText? line with
    | none =>
      obtain ⟨noHeading, noPhase⟩ := ofText?_eq_none_iff.1 read
      rw [List.filterMap_cons_none read]
      exact .passes noHeading noPhase (ih opened)
    | some meaning =>
      rw [List.filterMap_cons_some read]
      cases meaning with
      | heading name =>
        rw [continued_heading]
        exact .opens (ofText?_eq_heading_iff.1 read) (ih _)
      | phase p =>
        have phase := ofText?_eq_phase_iff.1 read
        -- A phase needs a project that is open.
        rcases List.eq_nil_or_concat' opened with rfl | ⟨front, last, rfl⟩
        · rw [continued_orphan]
          exact .drops phase (ih [])
        · rw [continued_phase]
          exact .adds phase (ih _)

/-- Reading a text gives exactly the projects that the grammar describes. -/
theorem parse_eq_iff_describes (text : String) (projects : List Project) :
    parse text = projects ↔ Describes text projects := by
  have whole : continued [] (meaningful text.toList) = parse text := rfl
  constructor
  · rintro rfl
    exact ⟨pieces '\n' text.toList, separated_iff.2 rfl, whole ▸ continues_continued [] _⟩
  · rintro ⟨lines, separated, continues⟩
    rw [eq_continued_of_continues continues, separated_iff.1 separated]
    exact whole.symm

end Plan

end Roadmap
