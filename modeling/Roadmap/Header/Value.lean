import Roadmap.Text.Blank

namespace Roadmap.Header.Value

open Text

def escape (c : Char) : List Char :=
  if c = '\\' then "\\\\".toList
  else if c = '"' then "\\\"".toList
  else if c = '\n' then "\\n".toList
  else if c = '\r' then "\\r".toList
  else [c]

/-- Undoes `escape`; a backslash before any other character stands for itself. -/
def unescape : List Char → List Char
  | [] => []
  | '\\' :: 'n' :: rest => '\n' :: unescape rest
  | '\\' :: 'r' :: rest => '\r' :: unescape rest
  | '\\' :: '"' :: rest => '"' :: unescape rest
  | '\\' :: '\\' :: rest => '\\' :: unescape rest
  | '\\' :: c :: rest => '\\' :: c :: unescape rest
  | c :: rest => c :: unescape rest

def isDelicate (c : Char) : Bool := c = ':' || c = '"' || c = '\n' || c = '\r'

def isFragileEnd (c : Char) : Bool := c = '\'' || isBlank c

def needsQuotes (value : List Char) : Bool :=
  value.any isDelicate || value.head?.any isFragileEnd || value.getLast?.any isFragileEnd

def write (value : List Char) : List Char :=
  if needsQuotes value then '"' :: value.flatMap escape ++ ['"'] else value

def between? (mark : Char) : List Char → Option (List Char)
  | [] => none
  | c :: rest => if c = mark ∧ rest.getLast? = some mark then some rest.dropLast else none

def read (text : List Char) : List Char :=
  match between? '"' text with
  | some inner => unescape inner
  | none => (between? '\'' text).getD text

theorem unescape_of_ne {c : Char} (other : c ≠ '\\') (rest : List Char) :
    unescape (c :: rest) = c :: unescape rest := by
  rw [unescape.eq_def]
  split <;> simp_all

theorem unescape_flatMap_escape (value : List Char) : unescape (value.flatMap escape) = value := by
  induction value with
  | nil => rfl
  | cons c rest ih =>
    simp only [List.flatMap_cons]
    by_cases backslash : c = '\\'
    · subst c; simp [escape, unescape, ih]
    by_cases quote : c = '"'
    · subst c; simp [escape, unescape, ih]
    by_cases feed : c = '\n'
    · subst c; simp [escape, unescape, ih]
    by_cases return_ : c = '\r'
    · subst c; simp [escape, unescape, ih]
    simp [escape, backslash, quote, feed, return_, unescape_of_ne backslash, ih]

theorem between?_eq_none {mark : Char} {text : List Char} (absent : text.head? ≠ some mark) :
    between? mark text = none := by
  cases text with
  | nil => rfl
  | cons c rest =>
    have other : c ≠ mark := by simpa using absent
    simp [between?, other]

theorem between?_append (mark : Char) (inner : List Char) :
    between? mark (mark :: inner ++ [mark]) = some inner := by
  simp [between?]

theorem read_write (value : List Char) : read (write value) = value := by
  unfold write
  split
  · simp only [read, between?_append, unescape_flatMap_escape]
  · next plain =>
    simp only [needsQuotes, Bool.or_eq_true, not_or, Bool.not_eq_true] at plain
    obtain ⟨⟨delicate, first⟩, -⟩ := plain
    have noQuote : value.head? ≠ some '"' := by
      intro head
      have member := List.mem_of_head? head
      have := List.any_eq_false.1 delicate _ member
      simp [isDelicate] at this
    have noApostrophe : value.head? ≠ some '\'' := by
      intro head
      rw [head] at first
      simp [isFragileEnd] at first
    simp [read, between?_eq_none noQuote, between?_eq_none noApostrophe]

end Roadmap.Header.Value
