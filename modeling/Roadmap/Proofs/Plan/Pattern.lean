import Mathlib.Data.List.Forall2
import Roadmap.Proofs.Plan.Grammar

namespace Roadmap

namespace Plan

open Text

/-- A row of characters of one class; a lazy one is first tried short, any other first long. -/
structure Stretch where
  keep : Char → Bool
  count : Nat → Bool
  lazy : Bool

namespace Stretch

def Fits (s : Stretch) (part : List Char) : Prop :=
  (∀ c ∈ part, s.keep c = true) ∧ s.count part.length = true

def single (c : Char) : Stretch := ⟨fun d => decide (d = c), fun n => decide (n = 1), false⟩

def many (keep : Char → Bool) : Stretch := ⟨keep, fun _ => true, false⟩

def several (keep : Char → Bool) : Stretch := ⟨keep, fun n => decide (0 < n), false⟩

def fewest (keep : Char → Bool) : Stretch := { several keep with lazy := true }

end Stretch

def fronts (keep : Char → Bool) : List Char → List (List Char × List Char)
  | [] => [([], [])]
  | c :: rest =>
    ([], c :: rest) ::
      if keep c then (fronts keep rest).map fun (front, rest) => (c :: front, rest) else []

def Stretch.cuts (s : Stretch) (text : List Char) : List (List Char × List Char) :=
  let allowed := (fronts s.keep text).filter fun (front, _) => s.count front.length
  if s.lazy then allowed else allowed.reverse

/-- The ways in which a text is a row of stretches, in the order in which they are tried. -/
def ways : List Stretch → List Char → List (List (List Char))
  | [], text => if text.isEmpty then [[]] else []
  | s :: pattern, text =>
    (s.cuts text).flatMap fun (front, rest) => (ways pattern rest).map (front :: ·)

def captures? (pattern : List Stretch) (text : List Char) : Option (List (List Char)) :=
  (ways pattern text).head?

/-- `^([^,]+),\s*([^,]+),\s*(.+)$` -/
def phaseHead : List Stretch :=
  [.several fun c => decide (c ≠ ','), .single ',', .many isBlank,
    .several fun c => decide (c ≠ ','), .single ',', .many isBlank,
    .several fun c => decide (c ≠ '\n')]

/-- `^(.+?)\s+([0-9.]+)$` -/
def assignment : List Stretch :=
  [.fewest fun c => decide (c ≠ '\n'), .several isBlank,
    .several fun c => c.isDigit || decide (c = '.')]

def leadingNumber (seen : Bool) : List Char → List Char
  | [] => []
  | c :: rest =>
    if c.isDigit then c :: leadingNumber seen rest
    else if c = '.' && !seen then c :: leadingNumber true rest
    else []

def fraction? (word : List Char) : Option Float :=
  let number := leadingNumber false word
  if number.any Char.isDigit then (Decimal.unsigned? number).filter Decimal.isFinite else none

def matchedShare? (entry : List Char) : Option Share := do
  let parts ← captures? assignment (trim entry)
  let portion ← fraction? (parts.getD 2 [])
  return ⟨String.ofList (trim (parts.getD 0 [])), portion⟩

def matchedShares (text : List Char) : List Share :=
  if (trim text).isEmpty then [] else (pieces ',' text).filterMap matchedShare?

def matchedPhase? (text : List Char) : Option Phase := do
  let (head, tail) ← cut ':' text
  let parts ← captures? phaseHead (trim head)
  let start := trim (parts.getD 3 [])
  return {
    name := String.ofList (trim (parts.getD 0 []))
    start := if start = chained then none else some ⟨String.ofList start⟩
    finish := ⟨String.ofList (trim (parts.getD 6 []))⟩
    shares := matchedShares tail }

theorem mem_fronts {keep : Char → Bool} {text front rest : List Char} :
    (front, rest) ∈ fronts keep text ↔ text = front ++ rest ∧ ∀ c ∈ front, keep c = true := by
  induction text generalizing front with
  | nil =>
    simp only [fronts, List.mem_singleton, Prod.mk.injEq]
    constructor
    · rintro ⟨rfl, rfl⟩
      simp
    · rintro ⟨whole, -⟩
      exact List.append_eq_nil_iff.1 whole.symm
  | cons c text ih =>
    have longer : (front, rest) ∈ fronts keep (c :: text) ↔ (front = [] ∧ rest = c :: text) ∨
        (keep c = true ∧ ∃ later, (later, rest) ∈ fronts keep text ∧ front = c :: later) := by
      by_cases kept : keep c = true <;> simp [fronts, kept, eq_comm]
    rw [longer]
    constructor
    · rintro (⟨rfl, rfl⟩ | ⟨kept, later, member, rfl⟩)
      · simp
      · obtain ⟨rfl, all⟩ := ih.1 member
        exact ⟨rfl, by simpa [kept] using all⟩
    · rintro ⟨whole, all⟩
      cases front with
      | nil => exact .inl ⟨rfl, whole.symm⟩
      | cons d later =>
        obtain ⟨rfl, rfl⟩ := List.cons.inj whole
        rw [List.forall_mem_cons] at all
        exact .inr ⟨all.1, later, ih.2 ⟨rfl, all.2⟩, rfl⟩

theorem Stretch.mem_cuts {s : Stretch} {text front rest : List Char} :
    (front, rest) ∈ s.cuts text ↔ text = front ++ rest ∧ s.Fits front := by
  have allowed :
      (front, rest) ∈ (fronts s.keep text).filter (fun (front, _) => s.count front.length) ↔
        text = front ++ rest ∧ s.Fits front := by
    rw [List.mem_filter, mem_fronts, and_assoc, Fits]
  unfold cuts
  split
  · exact allowed
  · exact List.mem_reverse.trans allowed

theorem mem_ways_nil {text : List Char} {parts : List (List Char)} :
    parts ∈ ways [] text ↔ parts = [] ∧ text = [] := by
  cases text <;> simp [ways]

theorem mem_ways_cons {s : Stretch} {pattern : List Stretch} {text : List Char}
    {parts : List (List Char)} :
    parts ∈ ways (s :: pattern) text ↔
      ∃ part others, parts = part :: others ∧ s.Fits part ∧
        ∃ rest, text = part ++ rest ∧ others ∈ ways pattern rest := by
  simp only [ways, List.mem_flatMap, List.mem_map, Prod.exists]
  constructor
  · rintro ⟨part, rest, cut, others, later, rfl⟩
    obtain ⟨whole, fits⟩ := Stretch.mem_cuts.1 cut
    exact ⟨part, others, rfl, fits, rest, whole, later⟩
  · rintro ⟨part, others, rfl, fits, rest, whole, later⟩
    exact ⟨part, rest, Stretch.mem_cuts.2 ⟨whole, fits⟩, others, later, rfl⟩

theorem mem_ways_flatten {pattern : List Stretch} {parts : List (List Char)}
    (fits : List.Forall₂ Stretch.Fits pattern parts) : parts ∈ ways pattern parts.flatten := by
  induction fits with
  | nil => exact mem_ways_nil.2 ⟨rfl, rfl⟩
  | cons first _ ih => exact mem_ways_cons.2 ⟨_, _, rfl, first, _, rfl, ih⟩

/-- Where all ways come to the same, the order in which they are tried is of no account. -/
theorem captures?_bind {β : Type} {pattern : List Stretch} {text : List Char}
    {meaning : List (List Char) → Option β} {value : Option β}
    (agree : ∀ parts ∈ ways pattern text, meaning parts = value)
    (exist : ∀ x, value = some x → ∃ parts, parts ∈ ways pattern text) :
    (captures? pattern text).bind meaning = value := by
  cases found : captures? pattern text with
  | some parts => exact agree parts (List.mem_of_mem_head? found)
  | none =>
    have empty : ways pattern text = [] := List.head?_eq_none_iff.1 found
    cases value with
    | none => rfl
    | some x =>
      obtain ⟨parts, member⟩ := exist x rfl
      simp [empty] at member

theorem Stretch.fits_single {c : Char} {part : List Char} : (single c).Fits part ↔ part = [c] := by
  simp only [Fits, single, decide_eq_true_eq]
  constructor
  · rintro ⟨same, length⟩
    obtain ⟨d, rfl⟩ := List.length_eq_one_iff.1 length
    rw [same d (by simp)]
  · rintro rfl
    simp

theorem Stretch.fits_many {keep : Char → Bool} {part : List Char} :
    (many keep).Fits part ↔ ∀ c ∈ part, keep c = true := by
  simp [Fits, many]

theorem Stretch.fits_several {keep : Char → Bool} {part : List Char} :
    (several keep).Fits part ↔ part ≠ [] ∧ ∀ c ∈ part, keep c = true := by
  simp [Fits, several, List.length_pos_iff, and_comm]

theorem Stretch.fits_fewest {keep : Char → Bool} {part : List Char} :
    (fewest keep).Fits part ↔ part ≠ [] ∧ ∀ c ∈ part, keep c = true :=
  fits_several

theorem forall_mem_ne_iff {mark : Char} {part : List Char} :
    (∀ c ∈ part, decide (c ≠ mark) = true) ↔ mark ∉ part := by
  simp only [decide_eq_true_eq]
  exact ⟨fun other member => other mark member rfl, fun absent c member same =>
    absent (same ▸ member)⟩

theorem fields?_of_mem_ways {head : List Char} {parts : List (List Char)}
    (member : parts ∈ ways phaseHead head) :
    ∃ name start finish, fields? head = some (name, start, finish) ∧
      trim (parts.getD 0 []) = trim name ∧ trim (parts.getD 3 []) = trim start ∧
      trim (parts.getD 6 []) = trim finish := by
  simp only [phaseHead, mem_ways_cons, mem_ways_nil, Stretch.fits_several, Stretch.fits_single,
    Stretch.fits_many, forall_mem_ne_iff] at member
  obtain ⟨name, _, rfl, named, _, rfl, _, _, rfl, rfl, _, rfl, gap, _, rfl, blank, _, rfl,
    start, _, rfl, started, _, rfl, _, _, rfl, rfl, _, rfl, gap', _, rfl, blank', _, rfl,
    finish, _, rfl, finished, _, rfl, rfl, rfl⟩ := member
  have commaless : ',' ∉ gap ++ start := by
    rw [List.mem_append, not_or]
    exact ⟨fun member => absurd (blank _ member) (by decide), started.2⟩
  refine ⟨name, gap ++ start, gap' ++ finish, fields?_eq_some_iff.2 ⟨by simp, named.2, commaless,
    named.1, by simp [started.1], by simp [finished.1]⟩, rfl, ?_, ?_⟩
  · exact (trim_blank_append blank start).symm
  · exact (trim_blank_append blank' finish).symm

theorem exists_mem_ways_of_fields? {head name start finish : List Char} (free : '\n' ∉ head)
    (read : fields? head = some (name, start, finish)) : ∃ parts, parts ∈ ways phaseHead head := by
  obtain ⟨rfl, nameFree, startFree, named, started, finished⟩ := fields?_eq_some_iff.1 read
  have noFeed : '\n' ∉ finish := fun member => free (by simp [member])
  have fits : List.Forall₂ Stretch.Fits phaseHead [name, [','], [], start, [','], [], finish] :=
    .cons (Stretch.fits_several.2 ⟨named, forall_mem_ne_iff.2 nameFree⟩) <|
    .cons (Stretch.fits_single.2 rfl) <| .cons (Stretch.fits_many.2 (by simp)) <|
    .cons (Stretch.fits_several.2 ⟨started, forall_mem_ne_iff.2 startFree⟩) <|
    .cons (Stretch.fits_single.2 rfl) <| .cons (Stretch.fits_many.2 (by simp)) <|
    .cons (Stretch.fits_several.2 ⟨finished, forall_mem_ne_iff.2 noFeed⟩) .nil
  exact ⟨_, by simpa using mem_ways_flatten fits⟩

theorem leadingNumber_true {word : List Char} (letters : ∀ c ∈ word, c.isDigit = true ∨ c = '.') :
    (leadingNumber true word).count '.' = 0 ∧
      (leadingNumber true word = word ∨ ∃ rest, word = leadingNumber true word ++ '.' :: rest) := by
  induction word with
  | nil => simp [leadingNumber]
  | cons c word ih =>
    rw [List.forall_mem_cons] at letters
    by_cases digit : c.isDigit = true
    · have other : c ≠ '.' := by rintro rfl; simp at digit
      obtain ⟨none, same | ⟨rest, same⟩⟩ := ih letters.2
      · rw [same] at none
        simp [leadingNumber, digit, other, none, same]
      · refine ⟨by simp [leadingNumber, digit, other, none], .inr ⟨rest, ?_⟩⟩
        simpa [leadingNumber, digit] using same
    · rw [letters.1.resolve_left digit]
      simp [leadingNumber]

theorem beforeSecondPoint_leadingNumber {word : List Char}
    (letters : ∀ c ∈ word, c.isDigit = true ∨ c = '.') :
    BeforeSecondPoint word (leadingNumber false word) := by
  induction word with
  | nil => simp [leadingNumber, BeforeSecondPoint]
  | cons c word ih =>
    rw [List.forall_mem_cons] at letters
    by_cases digit : c.isDigit = true
    · have other : c ≠ '.' := by rintro rfl; simp at digit
      obtain ⟨same, few⟩ | ⟨one, rest, same⟩ := ih letters.2
      · exact .inl (by simpa [leadingNumber, digit, other, same] using few)
      · refine .inr ⟨by simp [leadingNumber, digit, other, one], rest, ?_⟩
        simpa [leadingNumber, digit] using same
    · rw [letters.1.resolve_left digit]
      obtain ⟨none, same | ⟨rest, same⟩⟩ := leadingNumber_true letters.2
      · rw [same] at none
        exact .inl (by simp [leadingNumber, same, none])
      · refine .inr ⟨by simp [leadingNumber, none], rest, ?_⟩
        simpa [leadingNumber] using same

theorem fraction?_eq_portion? {word : List Char}
    (letters : ∀ c ∈ word, c.isDigit = true ∨ c = '.') : fraction? word = portion? word := by
  obtain ⟨number, before, value⟩ := exists_beforeSecondPoint letters
  rw [value, before.unique (beforeSecondPoint_leadingNumber letters), fraction?]
  split
  · rfl
  · next digitless =>
    cases read : Decimal.unsigned? (leadingNumber false word) with
    | none => rfl
    | some x => simp [exists_digit_of_unsigned? read] at digitless

theorem share?_of_mem_ways {entry : List Char} {parts : List (List Char)}
    (member : parts ∈ ways assignment (trim entry)) :
    share? entry = (fraction? (parts.getD 2 [])).map fun portion =>
      ⟨String.ofList (trim (parts.getD 0 [])), portion⟩ := by
  have trimmed := trimmed_trim entry
  generalize whole : trim entry = text at member trimmed
  simp only [assignment, mem_ways_cons, mem_ways_nil, Stretch.fits_fewest,
    Stretch.fits_several] at member
  obtain ⟨person, _, rfl, named, _, rfl, gap, _, rfl, apart, _, rfl, word, _, rfl, letters, _, rfl,
    rfl, rfl⟩ := member
  have numeric : ∀ c ∈ word, c.isDigit = true ∨ c = '.' := by simpa using letters.2
  have solid : ∀ c ∈ word, isBlank c = false := fun c member =>
    isBlank_of_digit_or_point (numeric c member)
  obtain ⟨c, rest, rfl⟩ := List.exists_cons_of_ne_nil named.1
  have first : isBlank c = false := trimmed.1 c rfl
  have nonempty : trim (c :: rest) ≠ [] := trim_ne_nil_of_head? rfl first
  have before : trimEnd (c :: rest) = trim (c :: rest) := by
    rw [trim, trimStart_eq_self fun d head => by cases head; exact first]
  have parts : c :: rest ++ (gap ++ (word ++ [])) = (c :: rest) ++ gap ++ word := by simp
  rw [share?, whole, parts, lastWord_gap apart.1 apart.2 solid, before]
  simp [nonempty, fraction?_eq_portion? numeric]

theorem exists_mem_ways_of_share? {entry : List Char} {s : Share} (free : '\n' ∉ entry)
    (read : share? entry = some s) : ∃ parts, parts ∈ ways assignment (trim entry) := by
  obtain ⟨person, gap, word, whole, ⟨named, -⟩, apart, -, letters, number, before,
    ⟨digit, inside, -⟩, -⟩ := share?_eq_some_iff.1 read
  have noFeed : '\n' ∉ person := fun member => free (mem_of_mem_trim (by simp [whole, member]))
  have nonempty : word ≠ [] := by
    rcases before with ⟨rfl, -⟩ | ⟨-, rest, rfl⟩
    · exact List.ne_nil_of_mem inside
    · simp
  have fits : List.Forall₂ Stretch.Fits assignment [person, gap, word] :=
    .cons (Stretch.fits_fewest.2 ⟨named, forall_mem_ne_iff.2 noFeed⟩) <|
    .cons (Stretch.fits_several.2 apart) <|
    .cons (Stretch.fits_several.2 ⟨nonempty, by simpa using letters⟩) .nil
  exact ⟨_, by simpa [whole] using mem_ways_flatten fits⟩

theorem matchedShare?_eq {entry : List Char} (free : '\n' ∉ entry) :
    matchedShare? entry = share? entry := by
  refine captures?_bind (fun parts member => ?_) fun s read => exists_mem_ways_of_share? free read
  rw [share?_of_mem_ways member]
  cases fraction? (parts.getD 2 []) <;> rfl

theorem matchedShares_eq {text : List Char} (free : '\n' ∉ text) :
    matchedShares text = shares text := by
  have each : (pieces ',' text).filterMap matchedShare? = shares text :=
    List.filterMap_congr fun entry member =>
      matchedShare?_eq fun inside => free (mem_of_mem_pieces member inside)
  unfold matchedShares
  split
  · next blank =>
    have empty := List.isEmpty_iff.1 blank
    have absent : ',' ∉ text := fun member => by simpa [empty] using mem_trim member (by decide)
    simp [shares, pieces_of_not_mem absent, share?, lastWord, trimEnd, empty]
  · exact each

theorem matchedPhase?_eq {text : List Char} (free : '\n' ∉ text) :
    matchedPhase? text = phase? text := by
  cases found : cut ':' text with
  | none => rw [matchedPhase?, phase?, found]; rfl
  | some parts =>
    obtain ⟨rfl, -⟩ := eq_append_of_cut found
    have headFree : '\n' ∉ trim parts.1 := fun member => free (by simp [mem_of_mem_trim member])
    have tailFree : '\n' ∉ parts.2 := fun member => free (by simp [member])
    rw [matchedPhase?, phase?, found]
    simp only [Option.bind_eq_bind, Option.bind_some]
    refine captures?_bind (fun fields member => ?_) fun p read => ?_
    · obtain ⟨name, start, finish, read, named, started, finished⟩ := fields?_of_mem_ways member
      simp only [read, named, started, finished, matchedShares_eq tailFree, Option.bind_some]
    · obtain ⟨⟨name, start, finish⟩, read, -⟩ := Option.bind_eq_some_iff.1 read
      exact exists_mem_ways_of_fields? headFree read

/-- Every line after a dash is read as the patterns have it. -/
theorem ofText?_of_dash {text rest : List Char} (free : '\n' ∉ text)
    (dash : trim text = '-' :: rest) :
    Line.ofText? text = (matchedPhase? (trim rest)).map .phase := by
  have inside : '\n' ∉ trim rest := fun member =>
    free (mem_of_mem_trim (by simp [dash, mem_of_mem_trim member]))
  rw [matchedPhase?_eq inside, Line.ofText?, dash]
  rfl

end Plan

end Roadmap
