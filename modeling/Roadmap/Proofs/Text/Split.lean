import Mathlib.Data.List.Basic
import Roadmap.Proofs.Text.Trim
import Roadmap.Text.Split

namespace Roadmap.Text

theorem mem_of_mem_pieces {mark c : Char} {text piece : List Char}
    (member : piece ∈ pieces mark text) (inside : c ∈ piece) : c ∈ text := by
  induction text generalizing piece with
  | nil => simp_all [pieces]
  | cons d rest ih =>
    simp only [pieces] at member
    split at member
    · rcases List.mem_cons.1 member with rfl | later
      · simp at inside
      · exact List.mem_cons_of_mem _ (ih later inside)
    · split at member
      · next none => exact absurd none (pieces_ne_nil mark rest)
      · next first others same =>
        rcases List.mem_cons.1 member with rfl | later
        · rcases List.mem_cons.1 inside with rfl | inside
          · simp
          · exact List.mem_cons_of_mem _ (ih (by simp [same]) inside)
        · exact List.mem_cons_of_mem _ (ih (by simp [same, later]) inside)

theorem joined_append {between : List Char} {first : List Char} {others : List (List Char)}
    (nonempty : others ≠ []) :
    joined between (first :: others) = first ++ between ++ joined between others := by
  cases others with
  | nil => exact absurd rfl nonempty
  | cons second more => rfl

theorem mem_joined {between : List Char} {parts : List (List Char)} {c : Char}
    (member : c ∈ joined between parts) : c ∈ between ∨ ∃ part ∈ parts, c ∈ part := by
  induction parts with
  | nil => simp [joined] at member
  | cons first others ih =>
    by_cases last : others = []
    · simp_all [joined]
    · rw [joined_append last] at member
      rcases List.mem_append.1 member with front | later
      · rcases List.mem_append.1 front with inside | inside
        · exact .inr ⟨first, List.mem_cons_self, inside⟩
        · exact .inl inside
      · rcases ih later with inside | ⟨part, among, inside⟩
        · exact .inl inside
        · exact .inr ⟨part, List.mem_cons_of_mem _ among, inside⟩

theorem append_joined (before between : List Char) {parts : List (List Char)}
    (nonempty : parts ≠ []) :
    before ++ joined (between ++ before) parts = joined between (parts.map (before ++ ·)) := by
  induction parts with
  | nil => exact absurd rfl nonempty
  | cons first others ih =>
    by_cases last : others = []
    · simp [last, joined]
    · rw [joined_append last, List.map_cons, joined_append (by simpa using last), ← ih last]
      simp

theorem getLast?_joined {between : List Char} {parts : List (List Char)} {last : List Char}
    (ending : parts.getLast? = some last) (nonempty : last ≠ []) :
    (joined between parts).getLast? = last.getLast? := by
  induction parts with
  | nil => simp at ending
  | cons first others ih =>
    by_cases none : others = []
    · simp_all [joined]
    · rw [List.getLast?_cons_of_ne_nil none] at ending
      have later := ih ending
      have some : joined between others ≠ [] := by
        intro empty
        rw [empty, List.getLast?_eq_some_getLast nonempty] at later
        cases later
      rw [joined_append none, List.getLast?_append_of_ne_nil _ some, later]

theorem line_cases {text line : List Char} (member : line ∈ lines text) :
    ∃ front, '\n' ∉ front ∧ (line = front ∨ line = front ++ ['\n']) := by
  induction text generalizing line with
  | nil => simp [lines] at member
  | cons c rest ih =>
    simp only [lines] at member
    split at member
    · next feed =>
      rcases List.mem_cons.1 member with rfl | later
      · exact ⟨[], by simp, .inr (by simp [feed])⟩
      · exact ih later
    · next other =>
      split at member
      · rw [List.mem_singleton.1 member]
        exact ⟨[c], by simpa using Ne.symm other, .inl rfl⟩
      -- The character is put in front of the first line of the rest.
      · next first others same =>
        rcases List.mem_cons.1 member with rfl | later
        · obtain ⟨front, absent, shape⟩ := @ih first (by simp [same])
          refine ⟨c :: front, by simp [Ne.symm other, absent], ?_⟩
          rcases shape with rfl | rfl
          · exact .inl rfl
          · exact .inr rfl
        · exact ih (by simp [same, later])

def Closed (line : List Char) : Prop := ∃ front, '\n' ∉ front ∧ line = front ++ ['\n']

inductive Lined : List (List Char) → Prop where
  | done : Lined []
  | last {line : List Char} (nonempty : line ≠ []) (absent : '\n' ∉ line) : Lined [line]
  | closed {line : List Char} {rest : List (List Char)} (closed : Closed line)
      (later : Lined rest) : Lined (line :: rest)

theorem lined_lines (text : List Char) : Lined (lines text) := by
  induction text with
  | nil => exact .done
  | cons c rest ih =>
    simp only [lines]
    split
    · next feed => exact .closed ⟨[], by simp, by simp [feed]⟩ ih
    · next other =>
      split
      · exact .last (by simp) (by simpa using Ne.symm other)
      · next first others same =>
        rw [same] at ih
        cases ih with
        | last nonempty absent => exact .last (by simp) (by simp [Ne.symm other, absent])
        | closed closed later =>
          obtain ⟨front, absent, rfl⟩ := closed
          exact .closed ⟨c :: front, by simp [Ne.symm other, absent], rfl⟩ later

theorem Lined.parts {before : List (List Char)} {line : List Char} {after : List (List Char)}
    (lined : Lined (before ++ line :: after)) :
    (∀ other ∈ before, Closed other) ∧ (Closed line ∨ '\n' ∉ line ∧ after = []) := by
  induction before with
  | nil =>
    refine ⟨by simp, ?_⟩
    cases lined with
    | last nonempty absent => exact .inr ⟨absent, rfl⟩
    | closed closed later => exact .inl closed
  | cons first before ih =>
    rw [List.cons_append] at lined
    generalize rest : before ++ line :: after = others at lined
    cases lined with
    | last nonempty absent => simp at rest
    | closed closed later =>
      subst rest
      obtain ⟨front, own⟩ := ih later
      exact ⟨List.forall_mem_cons.2 ⟨closed, front⟩, own⟩

theorem lines_flatten_append {front : List (List Char)} (closed : ∀ line ∈ front, Closed line)
    (rest : List Char) : lines (front.flatten ++ rest) = front ++ lines rest := by
  induction front with
  | nil => rfl
  | cons first front ih =>
    obtain ⟨⟨text, absent, rfl⟩, later⟩ := List.forall_mem_cons.1 closed
    rw [List.flatten_cons, List.append_assoc, List.append_assoc, List.singleton_append,
      lines_append absent, ih later, List.cons_append]

theorem lines_joined {parts : List (List Char)} (nonempty : parts ≠ [])
    (absent : ∀ part ∈ parts, '\n' ∉ part) (rest : List Char) :
    lines (joined ['\n'] parts ++ '\n' :: rest) = parts.map (· ++ ['\n']) ++ lines rest := by
  induction parts with
  | nil => exact absurd rfl nonempty
  | cons first others ih =>
    have head := absent first List.mem_cons_self
    by_cases last : others = []
    · rw [last, joined, lines_append head]
      rfl
    · have tail := ih last fun part member => absent part (List.mem_cons_of_mem _ member)
      rw [joined_append last, List.append_assoc, List.append_assoc, List.singleton_append,
        lines_append head, tail]
      rfl

theorem lines_of_not_mem {text : List Char} (nonempty : text ≠ []) (absent : '\n' ∉ text) :
    lines text = [text] := by
  induction text with
  | nil => exact absurd rfl nonempty
  | cons c rest ih =>
    rw [List.mem_cons, not_or] at absent
    by_cases last : rest = []
    · simp [last, lines]
    · simp [lines, Ne.symm absent.1, ih last absent.2]

theorem mem_lines_joined {parts : List (List Char)} (absent : ∀ part ∈ parts, '\n' ∉ part)
    {line : List Char} (member : line ∈ lines (joined ['\n'] parts)) :
    ∃ part ∈ parts, line = part ∨ line = part ++ ['\n'] := by
  induction parts with
  | nil => cases member
  | cons first others ih =>
    have head := absent first List.mem_cons_self
    by_cases last : others = []
    · subst last
      rw [joined] at member
      by_cases empty : first = []
      · rw [empty] at member
        cases member
      · rw [lines_of_not_mem empty head, List.mem_singleton] at member
        exact ⟨first, List.mem_cons_self, .inl member⟩
    · rw [joined_append last, List.append_assoc, List.singleton_append, lines_append head] at member
      rcases List.mem_cons.1 member with rfl | later
      · exact ⟨first, List.mem_cons_self, .inr rfl⟩
      · obtain ⟨part, among, shape⟩ :=
          ih (fun part among => absent part (List.mem_cons_of_mem _ among)) later
        exact ⟨part, List.mem_cons_of_mem _ among, shape⟩

theorem pieces_joined_append {mark : Char} {parts : List (List Char)} (nonempty : parts ≠ [])
    (absent : ∀ part ∈ parts, mark ∉ part) (rest : List Char) :
    pieces mark (joined [mark] parts ++ mark :: rest) = parts ++ pieces mark rest := by
  induction parts with
  | nil => exact absurd rfl nonempty
  | cons first others ih =>
    have head := absent first List.mem_cons_self
    by_cases last : others = []
    · rw [last, joined, pieces_append_mark head, List.singleton_append]
    · have tail := ih last fun part member => absent part (List.mem_cons_of_mem _ member)
      rw [joined_append last, List.append_assoc, List.append_assoc, List.singleton_append,
        pieces_append_mark head, tail, List.cons_append]

structure Separated (mark : Char) (text : List Char) (parts : List (List Char)) : Prop where
  nonempty : parts ≠ []
  joined : joined [mark] parts = text
  free : ∀ part ∈ parts, mark ∉ part

theorem separated_iff {mark : Char} {text : List Char} {parts : List (List Char)} :
    Separated mark text parts ↔ parts = pieces mark text := by
  constructor
  · rintro ⟨nonempty, rfl, free⟩
    exact (pieces_joined nonempty free).symm
  · rintro rfl
    exact ⟨pieces_ne_nil mark text, joined_pieces mark text, fun _ => not_mem_of_mem_pieces⟩

theorem map_trimEnd_pieces_append {mark : Char} {gap : List Char} (other : isBlank mark = false)
    (blank : ∀ c ∈ gap, isBlank c = true) (front : List Char) :
    (pieces mark (front ++ gap)).map trimEnd = (pieces mark front).map trimEnd := by
  induction front with
  | nil =>
    have absent : mark ∉ gap := fun member => by simp [blank mark member] at other
    rw [List.nil_append, pieces_of_not_mem absent]
    simp [pieces, trimEnd_eq_nil_iff.2 blank, trimEnd]
  | cons c front ih =>
    simp only [List.cons_append, pieces]
    split
    · simp only [List.map_cons, ih]
    · cases long : pieces mark (front ++ gap) with
      | nil => exact absurd long (pieces_ne_nil _ _)
      | cons first others =>
        cases short : pieces mark front with
        | nil => exact absurd short (pieces_ne_nil _ _)
        | cons first' others' =>
          simp only [long, short, List.map_cons, List.cons.injEq] at ih ⊢
          exact ⟨by simp only [trimEnd, ih.1], ih.2⟩

theorem map_trim_pieces_trimEnd {mark : Char} (other : isBlank mark = false) (text : List Char) :
    (pieces mark (trimEnd text)).map trim = (pieces mark text).map trim := by
  obtain ⟨gap, whole, blank⟩ := exists_trimEnd_append text
  have ends : (pieces mark text).map trimEnd = (pieces mark (trimEnd text)).map trimEnd := by
    conv_lhs => rw [whole]
    exact map_trimEnd_pieces_append other blank _
  have again := congrArg (List.map trim) ends
  simpa only [List.map_map, Function.comp_def, trim_trimEnd] using again.symm

theorem filterMap_map_of_read {α β γ : Type} {read : β → Option γ} {write : α → β} {meaning : α → γ}
    {items : List α} (back : ∀ item ∈ items, read (write item) = some (meaning item)) :
    (items.map write).filterMap read = items.map meaning := by
  induction items with
  | nil => rfl
  | cons item items ih =>
    have later := ih fun other member => back other (List.mem_cons_of_mem _ member)
    rw [List.map_cons, List.filterMap_cons_some (back item List.mem_cons_self), later,
      List.map_cons]

end Roadmap.Text

namespace Roadmap

/-- The second list holds, in order, what the related members of the first stand for. -/
inductive Selects {α β : Type} (Means : α → β → Prop) : List α → List β → Prop where
  | done : Selects Means [] []
  | take {item : α} {meaning : β} {items : List α} {meanings : List β}
      (means : Means item meaning) (rest : Selects Means items meanings) :
      Selects Means (item :: items) (meaning :: meanings)
  | skip {item : α} {items : List α} {meanings : List β}
      (meaningless : ∀ meaning, ¬ Means item meaning) (rest : Selects Means items meanings) :
      Selects Means (item :: items) meanings

theorem selects_iff {α β : Type} {Means : α → β → Prop} {read : α → Option β}
    (agree : ∀ item meaning, read item = some meaning ↔ Means item meaning) {items : List α}
    {meanings : List β} : Selects Means items meanings ↔ meanings = items.filterMap read := by
  constructor
  · intro selects
    induction selects with
    | done => rfl
    | take means rest ih =>
      rw [List.filterMap_cons_some ((agree _ _).2 means), ih]
    | @skip item items meanings meaningless rest ih =>
      have unread : read item = none :=
        Option.eq_none_iff_forall_ne_some.2 fun meaning same =>
          meaningless meaning ((agree _ _).1 same)
      rw [List.filterMap_cons_none unread, ih]
  · rintro rfl
    induction items with
    | nil => exact .done
    | cons item items ih =>
      cases same : read item with
      | none =>
        rw [List.filterMap_cons_none same]
        refine .skip (fun meaning means => ?_) ih
        rw [(agree _ _).2 means] at same
        cases same
      | some meaning =>
        rw [List.filterMap_cons_some same]
        exact .take ((agree _ _).1 same) ih

end Roadmap
