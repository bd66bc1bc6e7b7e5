namespace Roadmap.Text

/-- The text before, between and after the occurrences of `mark`; there is always at least one. -/
def pieces (mark : Char) : List Char → List (List Char)
  | [] => [[]]
  | c :: rest =>
    if c = mark then [] :: pieces mark rest
    else
      match pieces mark rest with
      | [] => [[c]]
      | first :: others => (c :: first) :: others

def cut (mark : Char) : List Char → Option (List Char × List Char)
  | [] => none
  | c :: rest =>
    if c = mark then some ([], rest)
    else (cut mark rest).map fun (before, after) => (c :: before, after)

/--
The lines of a text, each with its line feed; only the last may be without one, and none is empty.
-/
def lines : List Char → List (List Char)
  | [] => []
  | c :: rest =>
    if c = '\n' then [c] :: lines rest
    else
      match lines rest with
      | [] => [[c]]
      | first :: others => (c :: first) :: others

def joined (between : List Char) : List (List Char) → List Char
  | [] => []
  | [last] => last
  | first :: others => first ++ between ++ joined between others

theorem pieces_ne_nil (mark : Char) (text : List Char) : pieces mark text ≠ [] := by
  cases text with
  | nil => simp [pieces]
  | cons c rest =>
    simp only [pieces]
    split
    · simp
    · split <;> simp

theorem pieces_of_not_mem {mark : Char} {text : List Char} (absent : mark ∉ text) :
    pieces mark text = [text] := by
  induction text with
  | nil => rfl
  | cons c rest ih =>
    rw [List.mem_cons, not_or] at absent
    simp [pieces, Ne.symm absent.1, ih absent.2]

theorem not_mem_of_mem_pieces {mark : Char} {text piece : List Char}
    (member : piece ∈ pieces mark text) : mark ∉ piece := by
  induction text generalizing piece with
  | nil => simp_all [pieces]
  | cons c rest ih =>
    simp only [pieces] at member
    split at member
    · rcases List.mem_cons.1 member with rfl | later
      · simp
      · exact ih later
    · next other =>
      split at member
      · simp_all [Ne.symm other]
      · next first others same =>
        rcases List.mem_cons.1 member with rfl | later
        · have inner : mark ∉ first := ih (by simp [same])
          simp [Ne.symm other, inner]
        · exact ih (by simp [same, later])

theorem pieces_append_mark {mark : Char} {front : List Char} (absent : mark ∉ front)
    (rest : List Char) : pieces mark (front ++ mark :: rest) = front :: pieces mark rest := by
  induction front with
  | nil => simp [pieces]
  | cons c front ih =>
    rw [List.mem_cons, not_or] at absent
    simp [pieces, Ne.symm absent.1, ih absent.2]

theorem pieces_joined {mark : Char} {parts : List (List Char)} (some : parts ≠ [])
    (absent : ∀ part ∈ parts, mark ∉ part) : pieces mark (joined [mark] parts) = parts := by
  induction parts with
  | nil => exact absurd rfl some
  | cons first others ih =>
    cases others with
    | nil => exact pieces_of_not_mem (absent first (by simp))
    | cons second more =>
      simp only [joined, List.append_assoc, List.singleton_append]
      rw [pieces_append_mark (absent first (by simp)),
        ih (by simp) fun part member => absent part (List.mem_cons_of_mem _ member)]

theorem joined_pieces (mark : Char) (text : List Char) :
    joined [mark] (pieces mark text) = text := by
  induction text with
  | nil => rfl
  | cons c rest ih =>
    simp only [pieces]
    split
    · next same =>
      cases cut : pieces mark rest with
      | nil => exact absurd cut (pieces_ne_nil mark rest)
      | cons first others => rw [cut] at ih; simp [joined, ih, same]
    · split
      · next none => exact absurd none (pieces_ne_nil mark rest)
      · next first others same =>
        rw [same] at ih
        cases others with
        | nil => simpa [joined] using ih
        | cons second more => simpa [joined] using ih

theorem flatten_lines (text : List Char) : (lines text).flatten = text := by
  induction text with
  | nil => rfl
  | cons c rest ih =>
    simp only [lines]
    split
    · simp [ih]
    · split
      · next same => simp [same] at ih; simp [← ih]
      · next first others same => simp [same] at ih; simp [ih]

theorem eq_append_of_cut {mark : Char} {text before after : List Char}
    (found : cut mark text = some (before, after)) :
    text = before ++ mark :: after ∧ mark ∉ before := by
  induction text generalizing before with
  | nil => simp [cut] at found
  | cons c rest ih =>
    simp only [cut] at found
    split at found
    · next same => cases found; simp [same]
    · next other =>
      obtain ⟨⟨front, back⟩, step, same⟩ := Option.map_eq_some_iff.1 found
      cases same
      have inner := ih step
      exact ⟨by simp [← inner.1], by simp [Ne.symm other, inner.2]⟩

theorem cut_eq_none_iff {mark : Char} {text : List Char} : cut mark text = none ↔ mark ∉ text := by
  induction text with
  | nil => simp [cut]
  | cons c rest ih =>
    simp only [cut]
    split
    · next same => simp [same]
    · next other => simp [ih, Ne.symm other]

theorem cut_append {mark : Char} {before : List Char} (absent : mark ∉ before) (after : List Char) :
    cut mark (before ++ mark :: after) = some (before, after) := by
  induction before with
  | nil => simp [cut]
  | cons c before ih =>
    rw [List.mem_cons, not_or] at absent
    simp [cut, Ne.symm absent.1, ih absent.2]

theorem lines_append {front : List Char} (absent : '\n' ∉ front) (rest : List Char) :
    lines (front ++ '\n' :: rest) = (front ++ ['\n']) :: lines rest := by
  induction front with
  | nil => simp [lines]
  | cons c front ih =>
    rw [List.mem_cons, not_or] at absent
    simp [lines, Ne.symm absent.1, ih absent.2]

end Roadmap.Text
