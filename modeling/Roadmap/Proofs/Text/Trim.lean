import Mathlib.Data.List.Basic
import Roadmap.Text.Blank

namespace Roadmap.Text

theorem mem_of_mem_trimEnd {text : List Char} {c : Char} (member : c ∈ trimEnd text) :
    c ∈ text := by
  induction text with
  | nil => simp [trimEnd] at member
  | cons d rest ih =>
    by_cases none : trimEnd rest = []
    · simp only [trimEnd, none] at member
      split at member
      · simp at member
      · rw [List.mem_singleton.1 member]; simp
    · rw [trimEnd_cons_of_ne_nil none] at member
      rcases List.mem_cons.1 member with rfl | member
      · simp
      · exact List.mem_cons_of_mem _ (ih member)

theorem mem_of_mem_trimStart {text : List Char} {c : Char} (member : c ∈ trimStart text) :
    c ∈ text :=
  (List.dropWhile_sublist isBlank).subset member

theorem mem_of_mem_trim {text : List Char} {c : Char} (member : c ∈ trim text) : c ∈ text :=
  mem_of_mem_trimStart (mem_of_mem_trimEnd member)

theorem trimEnd_append_cons {c : Char} (other : isBlank c = false) (front back : List Char) :
    trimEnd (front ++ c :: back) = front ++ c :: trimEnd back := by
  have kept : trimEnd (c :: back) = c :: trimEnd back := by
    by_cases none : trimEnd back = []
    · simp [trimEnd, none, other]
    · exact trimEnd_cons_of_ne_nil none
  induction front with
  | nil => exact kept
  | cons d front ih =>
    rw [List.cons_append, trimEnd_cons_of_ne_nil (by simp [ih]), ih, List.cons_append]

theorem trimStart_append_cons {c : Char} (other : isBlank c = false) (front back : List Char) :
    trimStart (front ++ c :: back) = trimStart front ++ c :: back := by
  induction front with
  | nil => simp [trimStart, other]
  | cons d front ih =>
    by_cases blank : isBlank d = true
    · simpa [trimStart, blank] using ih
    · simp [trimStart, blank]

theorem trim_append_cons {c : Char} (other : isBlank c = false) (front back : List Char) :
    trim (front ++ c :: back) = trimStart front ++ c :: trimEnd back := by
  rw [trim, trimStart_append_cons other, trimEnd_append_cons other]

theorem mem_trim {text : List Char} {c : Char} (member : c ∈ text) (other : isBlank c = false) :
    c ∈ trim text := by
  obtain ⟨front, back, rfl⟩ := List.append_of_mem member
  simp [trim_append_cons other]

theorem trimEnd_append_blank {back : List Char} (blank : ∀ c ∈ back, isBlank c = true)
    (front : List Char) : trimEnd (front ++ back) = trimEnd front := by
  induction front with
  | nil => exact trimEnd_eq_nil_iff.2 blank
  | cons d front ih => simp only [List.cons_append, trimEnd, ih]

theorem trimStart_blank_append {gap : List Char} (blank : ∀ c ∈ gap, isBlank c = true)
    (text : List Char) : trimStart (gap ++ text) = trimStart text :=
  List.dropWhile_append_of_pos blank

theorem trim_blank_append {gap : List Char} (blank : ∀ c ∈ gap, isBlank c = true)
    (text : List Char) : trim (gap ++ text) = trim text := by
  rw [trim, trimStart_blank_append blank, trim]

@[simp] theorem trimStart_space (text : List Char) : trimStart (' ' :: text) = trimStart text := by
  simp [trimStart, isBlank_space]

@[simp] theorem trim_space (text : List Char) : trim (' ' :: text) = trim text := by
  simp [trim]

theorem trimEnd_trimEnd (text : List Char) : trimEnd (trimEnd text) = trimEnd text :=
  trimEnd_eq_self (getLast?_trimEnd text)

theorem trimStart_trimEnd (text : List Char) :
    trimStart (trimEnd text) = trimEnd (trimStart text) := by
  induction text with
  | nil => rfl
  | cons c rest ih =>
    by_cases blank : isBlank c = true
    · have skipped : trimStart (c :: rest) = trimStart rest := by simp [trimStart, blank]
      rw [skipped, ← ih]
      by_cases none : trimEnd rest = []
      · simp [trimEnd, none, blank]
      · rw [trimEnd_cons_of_ne_nil none]
        simp [trimStart, blank]
    · have other : isBlank c = false := by simpa using blank
      have kept := trimEnd_append_cons other [] rest
      simp only [List.nil_append] at kept
      simp [kept, trimStart, other]

theorem trim_trimEnd (text : List Char) : trim (trimEnd text) = trim text := by
  rw [trim, trimStart_trimEnd, trimEnd_trimEnd, trim]

theorem exists_trimEnd_append (text : List Char) :
    ∃ gap, text = trimEnd text ++ gap ∧ ∀ c ∈ gap, isBlank c = true := by
  induction text with
  | nil => exact ⟨[], rfl, by simp⟩
  | cons c rest ih =>
    by_cases none : trimEnd rest = []
    · by_cases blank : isBlank c = true
      · have all : ∀ d ∈ c :: rest, isBlank d = true := by
          simpa [blank] using trimEnd_eq_nil_iff.1 none
        exact ⟨c :: rest, by rw [trimEnd_eq_nil_iff.2 all]; rfl, all⟩
      · refine ⟨rest, ?_, trimEnd_eq_nil_iff.1 none⟩
        simp [trimEnd, none, blank]
    · obtain ⟨gap, whole, blanks⟩ := ih
      refine ⟨gap, ?_, blanks⟩
      rw [trimEnd_cons_of_ne_nil none, List.cons_append, ← whole]

theorem trim_trimStart (text : List Char) : trim (trimStart text) = trim text := by
  rw [trim, trimStart_eq_self (head?_trimStart text), trim]

theorem trim_append_newline (front : List Char) : trim (front ++ ['\n']) = trim front := by
  have blank : ∀ c ∈ ['\n'], isBlank c = true := by simp [isBlank_newline]
  rw [← trim_trimEnd, trimEnd_append_blank blank, trim_trimEnd]

theorem Trimmed.start {text : List Char} (trimmed : Trimmed text) : trimStart text = text :=
  trimStart_eq_self trimmed.1

theorem Trimmed.end {text : List Char} (trimmed : Trimmed text) : trimEnd text = text :=
  trimEnd_eq_self trimmed.2

theorem Trimmed.around {first last : List Char} (trimmed : Trimmed first) (nonempty : first ≠ [])
    (trimmed' : Trimmed last) (nonempty' : last ≠ []) (between : List Char) :
    Trimmed (first ++ between ++ last) := by
  constructor
  · rw [List.append_assoc, List.head?_append_of_ne_nil _ nonempty]
    exact trimmed.1
  · rw [List.getLast?_append_of_ne_nil _ nonempty']
    exact trimmed'.2

theorem head?_trim {text : List Char} {c : Char} (first : text.head? = some c)
    (other : isBlank c = false) : (trim text).head? = some c := by
  obtain ⟨rest, rfl⟩ := List.head?_eq_some_iff.1 first
  have kept := trim_append_cons other [] rest
  simp only [List.nil_append] at kept
  rw [kept]
  rfl

theorem getLast?_trim {text : List Char} {c : Char} (last : text.getLast? = some c)
    (other : isBlank c = false) : (trim text).getLast? = some c := by
  obtain ⟨front, rfl⟩ := List.getLast?_eq_some_iff.1 last
  rw [trim_append_cons other, show trimEnd [] = [] from rfl]
  simp

theorem isBlank_of_isDigit {c : Char} (digit : c.isDigit = true) : isBlank c = false := by
  have range := Char.isDigit_iff_toNat.1 digit
  simp [isBlank, blankRanges] at range ⊢
  omega

def Clean (marks : List Char) (text : String) : Prop :=
  Trimmed text.toList ∧ ∀ mark ∈ marks, mark ∉ text.toList

theorem clean_ofList {marks text : List Char} (trimmed : Trimmed text)
    (free : ∀ mark ∈ marks, mark ∉ text) : Clean marks (String.ofList text) := by
  simpa [Clean] using ⟨trimmed, free⟩

theorem clean_trim {marks text : List Char} (free : ∀ mark ∈ marks, mark ∉ text) :
    Clean marks (String.ofList (trim text)) :=
  clean_ofList (trimmed_trim text) fun mark member inside =>
    free mark member (mem_of_mem_trim inside)

theorem ofList_ne_empty {text : List Char} (nonempty : text ≠ []) : String.ofList text ≠ "" := by
  intro same
  exact nonempty (by simpa using congrArg String.toList same)

end Roadmap.Text
