import Roadmap.Plan.Printer
import Roadmap.Proofs.Plan.Canonical

namespace Roadmap.Plan

open Text

theorem portion?_of_plain {text : List Char} (plain : Decimal.Plain text) :
    portion? text = (Decimal.unsigned? text).filter Decimal.isFinite := by
  have allowed : (text.all fun c => c.isDigit || c = '.') = true := by
    simpa using plain.digit_or_point
  rw [portion?, if_pos allowed]
  cases plain with
  | whole nonempty digit =>
    rw [List.takeWhile_eq_self_iff.2 digit, List.dropWhile_eq_nil_iff.2 digit]
  | point nonempty digit place =>
    rw [Decimal.takeWhile_digits_point digit, Decimal.dropWhile_digits_point digit]
    simp only [List.takeWhile_eq_self_iff.2 place]

theorem portion?_write {x : Float} (portion : Decimal.IsPortion x) :
    portion? (Decimal.Layout.plain.write x) = some x := by
  rw [portion?_of_plain portion.plain_write, portion.unsigned?_write]
  exact Option.filter_eq_some_iff.2 ⟨rfl, portion.1⟩

theorem isBlank_of_digit_or_point {c : Char} (number : c.isDigit = true ∨ c = '.') :
    isBlank c = false := by
  rcases number with digit | rfl
  · exact isBlank_of_isDigit digit
  · decide

theorem lastWord_append {blank : Char} (isBlank : isBlank blank = true) {word : List Char}
    (solid : ∀ c ∈ word, Text.isBlank c = false) (front : List Char) :
    lastWord (front ++ blank :: word) = (trimEnd front, word) := by
  have tail : ((front ++ blank :: word).reverse.takeWhile fun c => !Text.isBlank c).reverse =
      word := by
    have stop : ([blank] ++ front.reverse).takeWhile (fun c => !Text.isBlank c) = [] := by
      simp [isBlank]
    rw [List.reverse_append, List.reverse_cons, List.append_assoc,
      List.takeWhile_append_of_pos (by simpa using solid), stop, List.append_nil,
      List.reverse_reverse]
  have head : (front ++ blank :: word).take ((front ++ blank :: word).length - word.length) =
      front ++ [blank] := by
    rw [List.append_cons, List.length_append, Nat.add_sub_cancel, List.take_left']
    rfl
  have dropped : trimEnd (front ++ [blank]) = trimEnd front :=
    trimEnd_append_blank (by simpa using isBlank) front
  simp only [lastWord, tail, head, dropped]

theorem lastWord_gap {front gap word : List Char} (apart : gap ≠ [])
    (blank : ∀ c ∈ gap, isBlank c = true) (solid : ∀ c ∈ word, isBlank c = false) :
    lastWord (front ++ gap ++ word) = (trimEnd front, word) := by
  obtain ⟨blanks, c, rfl⟩ := (List.eq_nil_or_concat gap).resolve_left apart
  have whole : front ++ blanks.concat c ++ word = (front ++ blanks) ++ c :: word := by simp
  rw [whole, lastWord_append (blank c (by simp)) solid,
    trimEnd_append_blank fun d member => blank d (by simp [member])]

theorem solid_write {x : Float} (portion : Decimal.IsPortion x) :
    ∀ c ∈ Decimal.Layout.plain.write x, isBlank c = false :=
  fun c member => isBlank_of_digit_or_point (portion.plain_write.digit_or_point c member)

theorem trimmed_writeShare {s : Share} (canonical : s.Canonical) : Trimmed (writeShare s) := by
  have solid := solid_write canonical.portion
  have number : Trimmed (Decimal.Layout.plain.write s.portion) :=
    ⟨fun c first => solid c (List.mem_of_mem_head? first),
      fun c last => solid c (List.mem_of_mem_getLast? last)⟩
  have around := canonical.person.1.around (by simpa using canonical.named) number
    canonical.portion.plain_write.nonempty [' ']
  simpa [writeShare] using around

theorem not_mem_writeShare {s : Share} (canonical : s.Canonical) {mark : Char}
    (marks : mark ∈ [',', '\n']) : mark ∉ writeShare s := by
  intro member
  rcases List.mem_append.1 member with person | rest
  · exact canonical.person.2 mark marks person
  · rcases List.mem_cons.1 rest with rfl | number
    · simp at marks
    · have other := canonical.portion.plain_write.digit_or_point mark number
      simp only [List.mem_cons, List.not_mem_nil, or_false] at marks
      rcases marks with rfl | rfl <;> simp at other

theorem share?_writeShare {s : Share} (canonical : s.Canonical) :
    share? (' ' :: writeShare s) = some s := by
  have nonempty : s.person.toList ≠ [] := by simpa using canonical.named
  rw [share?, trim_space, trim_eq_self (trimmed_writeShare canonical), writeShare,
    lastWord_append isBlank_space (solid_write canonical.portion), canonical.person.1.end]
  simp [nonempty, portion?_write canonical.portion]

theorem getLast?_writeShares {entries : List Share} (canonical : ∀ s ∈ entries, s.Canonical)
    (some : entries ≠ []) :
    ∀ c ∈ (joined [','] ((entries.map writeShare).map (' ' :: ·))).getLast?, isBlank c = false := by
  let s := entries.getLast some
  have member : s ∈ entries := List.getLast_mem some
  have ending : ((entries.map writeShare).map (' ' :: ·)).getLast? =
      .some (' ' :: writeShare s) := by
    simp [List.getLast?_eq_some_getLast some, s]
  rw [getLast?_joined ending (by simp), List.getLast?_cons_of_ne_nil (by simp [writeShare])]
  exact (trimmed_writeShare (canonical s member)).2

theorem shares_writeShares {entries : List Share} (canonical : ∀ s ∈ entries, s.Canonical) :
    shares (trimEnd (' ' :: joined ", ".toList (entries.map writeShare))) = entries := by
  by_cases none : entries = []
  · subst none; rfl
  have parts : entries.map writeShare ≠ [] := by simpa using none
  have spaced : ' ' :: joined ", ".toList (entries.map writeShare) =
      joined [','] ((entries.map writeShare).map (' ' :: ·)) :=
    append_joined [' '] [','] parts
  -- The last entry ends in a digit, so trimming takes nothing off.
  have solid := getLast?_writeShares canonical none
  rw [spaced, trimEnd_eq_self solid, shares, pieces_joined]
  · have back : (entries.map fun s => ' ' :: writeShare s).filterMap share? = entries.map id :=
      filterMap_map_of_read fun s member => share?_writeShare (canonical s member)
    rw [List.map_map]
    rwa [List.map_id] at back
  · simpa using none
  · intro part member
    simp only [List.map_map, List.mem_map, Function.comp_apply] at member
    obtain ⟨s, member, rfl⟩ := member
    have absent : ',' ∉ writeShare s := not_mem_writeShare (canonical s member) (by simp)
    simpa using absent

def head (p : Phase) : List Char :=
  p.name.toList ++ ',' :: ((' ' :: writeStart p.start) ++ ',' :: (' ' :: p.finish.text.toList))

def tail (p : Phase) : List Char := ' ' :: joined ", ".toList (p.shares.map writeShare)

theorem writePhase_eq (p : Phase) : writePhase p = ('-' :: ' ' :: head p) ++ ':' :: tail p := by
  delta writePhase
  simp [head, tail]

theorem chained_eq : chained = ['-', '-'] := by simp [chained]

theorem writeStart_clean {p : Phase} (canonical : p.Canonical) :
    Trimmed (writeStart p.start) ∧ ∀ mark ∈ [',', ':', '\n'], mark ∉ writeStart p.start := by
  cases chosen : p.start with
  | none =>
    have dash : isBlank '-' = false := by decide
    rw [writeStart, chained_eq]
    exact ⟨by simp [Trimmed, dash], by simp⟩
  | some token => exact (canonical.start token chosen).1

theorem not_mem_head {p : Phase} (canonical : p.Canonical) {mark : Char}
    (marks : mark ∈ [':', '\n']) : mark ∉ head p := by
  have name := canonical.name.2 mark (List.mem_cons_of_mem _ marks)
  have start := (writeStart_clean canonical).2 mark (List.mem_cons_of_mem _ marks)
  have finish := canonical.finish.2 mark marks
  simp only [List.mem_cons, List.not_mem_nil, or_false] at marks
  rcases marks with rfl | rfl <;> simp [head, name, start, finish]

theorem trimmed_head {p : Phase} (canonical : p.Canonical) : Trimmed (head p) := by
  have around := canonical.name.1.around (by simpa using canonical.named) canonical.finish.1
    (by simpa using canonical.finished) (',' :: ' ' :: writeStart p.start ++ [',', ' '])
  simpa [head] using around

theorem fields?_head {p : Phase} (canonical : p.Canonical) :
    fields? (head p) =
      some (p.name.toList, ' ' :: writeStart p.start, ' ' :: p.finish.text.toList) := by
  have name := canonical.name.2 ',' (by simp)
  have start : ',' ∉ ' ' :: writeStart p.start := by
    simpa using (writeStart_clean canonical).2 ',' (by simp)
  have nonempty : p.name.toList ≠ [] := by simpa using canonical.named
  exact fields?_eq_some_iff.2 ⟨rfl, name, start, nonempty, by simp, by simp⟩

theorem start_eq {p : Phase} (canonical : p.Canonical) :
    (if writeStart p.start = chained then none
      else some (⟨String.ofList (writeStart p.start)⟩ : DateToken)) = p.start := by
  cases chosen : p.start with
  | none => rfl
  | some token =>
    have other : token.text.toList ≠ chained := by
      intro same
      exact (canonical.start token chosen).2 (String.toList_inj.1 same)
    simp [writeStart, other]

theorem phase?_writePhase {p : Phase} (canonical : p.Canonical) :
    phase? (head p ++ ':' :: trimEnd (tail p)) = some p := by
  have entries : shares (trimEnd (tail p)) = p.shares := shares_writeShares canonical.shares
  rw [phase?, cut_append (not_mem_head canonical (by simp))]
  simp only [Option.bind_eq_bind, Option.bind_some, trim_eq_self (trimmed_head canonical),
    fields?_head canonical, trim_space, trim_eq_self canonical.name.1,
    trim_eq_self (writeStart_clean canonical).1, trim_eq_self canonical.finish.1,
    entries, start_eq canonical, String.ofList_toList]
  rfl

theorem ofText?_writePhase {p : Phase} (canonical : p.Canonical) :
    Line.ofText? (writePhase p) = some (.phase p) := by
  have colon : isBlank ':' = false := by decide
  have dash : isBlank '-' = false := by decide
  have line : trim (writePhase p) = '-' :: (' ' :: head p ++ ':' :: trimEnd (tail p)) := by
    rw [writePhase_eq, trim_append_cons colon, trimStart_eq_self (by simpa using dash)]
    rfl
  have body : trim (' ' :: head p ++ ':' :: trimEnd (tail p)) =
      head p ++ ':' :: trimEnd (tail p) := by
    rw [trim_append_cons colon, trimStart_space, (trimmed_head canonical).start, trimEnd_trimEnd]
  rw [Line.ofText?, line]
  simp only [body, phase?_writePhase canonical, Option.map_some]

theorem ofText?_heading {p : Project} (canonical : p.Canonical) :
    Line.ofText? (p.name.toList ++ [':']) = some (.heading p.name) := by
  have colon : isBlank ':' = false := by decide
  have line : trim (p.name.toList ++ [':']) = p.name.toList ++ [':'] := by
    rw [trim_append_cons colon, canonical.name.1.start]
    rfl
  rw [Line.ofText?, line]
  split
  · next empty => simp at empty
  · next rest dash =>
    exact absurd dash (by
      have first := canonical.dashless
      cases name : p.name.toList with
      | nil => simp
      | cons c rest => simp_all)
  · simp [trim_eq_self canonical.name.1]

theorem newline_not_mem_writePhase {p : Phase} (canonical : p.Canonical) : '\n' ∉ writePhase p := by
  have head : '\n' ∉ head p := not_mem_head canonical (by simp)
  have shares : '\n' ∉ joined ", ".toList (p.shares.map writeShare) := by
    intro member
    rcases mem_joined member with between | ⟨part, among, inside⟩
    · simp at between
    · obtain ⟨s, entry, rfl⟩ := List.mem_map.1 among
      exact not_mem_writeShare (canonical.shares s entry) (by simp) inside
  rw [writePhase_eq]
  simpa [head, tail] using shares

theorem newline_not_mem_writeLines {projects : List Project} (canonical : Canonical projects) :
    ∀ line ∈ writeLines projects, '\n' ∉ line := by
  intro line member
  obtain ⟨p, among, written⟩ := List.mem_flatMap.1 member
  rcases List.mem_cons.1 written with rfl | written
  · simpa using (canonical p among).name.2 '\n' (by simp)
  · obtain ⟨phase, own, rfl⟩ := List.mem_map.1 written
    exact newline_not_mem_writePhase ((canonical p among).phases phase own)

def outline (projects : List Project) : List Line :=
  projects.flatMap fun p => .heading p.name :: p.phases.map .phase

theorem assemble_phases (phases : List Phase) (rest : List Line) :
    assemble (phases.map .phase ++ rest) = (phases ++ (assemble rest).1, (assemble rest).2) := by
  induction phases with
  | nil => rfl
  | cons phase phases ih => rw [List.map_cons, List.cons_append, assemble, ih, List.cons_append]

theorem assemble_outline (projects : List Project) :
    assemble (outline projects) = ([], projects) := by
  induction projects with
  | nil => rfl
  | cons p projects ih =>
    rw [outline, List.flatMap_cons, List.cons_append, assemble, assemble_phases]
    rw [outline] at ih
    rw [ih, List.append_nil]

theorem ofText?_writeLines {projects : List Project} (canonical : Canonical projects) :
    (writeLines projects).filterMap Line.ofText? = outline projects := by
  induction projects with
  | nil => rfl
  | cons p projects ih =>
    have first := canonical p List.mem_cons_self
    have phases : (p.phases.map writePhase).filterMap Line.ofText? = p.phases.map .phase :=
      filterMap_map_of_read fun phase member => ofText?_writePhase (first.phases phase member)
    have others := ih fun p member => canonical p (List.mem_cons_of_mem _ member)
    rw [writeLines, List.flatMap_cons, List.filterMap_append, projectLines,
      List.filterMap_cons_some (ofText?_heading first), phases]
    rw [writeLines] at others
    rw [others]
    rfl

theorem meaningful_write {projects : List Project} (canonical : Canonical projects) :
    meaningful (write projects).toList = outline projects := by
  rw [← ofText?_writeLines canonical, meaningful, write, String.toList_ofList]
  by_cases none : writeLines projects = []
  · rw [none]; rfl
  · rw [pieces_joined none (newline_not_mem_writeLines canonical)]

theorem parse_write {projects : List Project} (canonical : Canonical projects) :
    parse (write projects) = projects := by
  rw [parse, meaningful_write canonical, assemble_outline]

/-- Reading undoes writing for exactly the canonical roadmaps, and reading gives no others. So a
roadmap that was read once survives being written and read again. -/
theorem parse_write_eq_iff_canonical :
    (∀ projects, parse (write projects) = projects ↔ Canonical projects) ∧
      (∀ text, Canonical (parse text)) ∧
      ∀ text, parse (write (parse text)) = parse text := by
  refine ⟨fun projects => ⟨fun same => ?_, parse_write⟩, canonical_parse, fun text => ?_⟩
  · rw [← same]
    exact canonical_parse _
  · exact parse_write (canonical_parse text)

end Roadmap.Plan
