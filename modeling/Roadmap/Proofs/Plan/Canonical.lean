import Roadmap.Plan.Parser
import Roadmap.Proofs.Decimal.Plain
import Roadmap.Proofs.Text.Split
import Roadmap.Proofs.Text.Trim

namespace Roadmap

open Text

structure Share.Canonical (s : Share) : Prop where
  person : Clean [',', '\n'] s.person
  named : s.person ≠ ""
  portion : Decimal.IsPortion s.portion

structure Phase.Canonical (p : Phase) : Prop where
  name : Clean [',', ':', '\n'] p.name
  named : p.name ≠ ""
  start : ∀ token ∈ p.start, Clean [',', ':', '\n'] token.text ∧ token.text ≠ "--"
  finish : Clean [':', '\n'] p.finish.text
  finished : p.finish.text ≠ ""
  shares : ∀ s ∈ p.shares, s.Canonical

structure Project.Canonical (p : Project) : Prop where
  name : Clean ['\n'] p.name
  dashless : p.name.toList.head? ≠ some '-'
  phases : ∀ phase ∈ p.phases, phase.Canonical

namespace Plan

def Canonical (projects : List Project) : Prop := ∀ p ∈ projects, p.Canonical

def Line.Canonical : Line → Prop
  | .heading name => Clean ['\n'] name ∧ name.toList.head? ≠ some '-'
  | .phase p => p.Canonical

theorem lastWord_parts (text : List Char) :
    ∃ front, text = front ++ (lastWord text).2 ∧ (lastWord text).1 = trimEnd front ∧
      ∀ c ∈ front.getLast?, isBlank c = true := by
  let word := (text.reverse.takeWhile fun c => !isBlank c).reverse
  let front := (text.reverse.dropWhile fun c => !isBlank c).reverse
  have whole : text = front ++ word := by
    rw [← List.reverse_append, List.takeWhile_append_dropWhile, List.reverse_reverse]
  have before : text.take (text.length - word.length) = front := by
    have length := congrArg List.length whole
    rw [List.length_append] at length
    rw [length, Nat.add_sub_cancel, whole, List.take_left']
    rfl
  refine ⟨front, whole, congrArg trimEnd before, fun c last => ?_⟩
  have stop := List.head?_dropWhile_not (fun c => !isBlank c) text.reverse
  rw [Option.mem_def, List.getLast?_reverse] at last
  simpa [last] using stop

theorem trimmed_lastWord {text : List Char} (trimmed : Trimmed text) :
    Trimmed (lastWord text).1 := by
  obtain ⟨front, whole, person, -⟩ := lastWord_parts text
  rw [person]
  refine ⟨fun c first => trimmed.1 c ?_, getLast?_trimEnd front⟩
  have nonempty : trimEnd front ≠ [] := by
    intro none
    simp [none] at first
  rw [head?_trimEnd nonempty] at first
  rw [whole]
  exact List.mem_head?_append_of_mem_head? first

theorem isPortion_of_portion? {text : List Char} {x : Float} (read : portion? text = some x) :
    Decimal.IsPortion x := by
  unfold portion? at read
  split at read
  · obtain ⟨value, finite⟩ := Option.filter_eq_some_iff.1 read
    exact ⟨finite, Decimal.isNegative_of_unsigned? value⟩
  · cases read

theorem canonical_of_share? {entry : List Char} {s : Share} (read : share? entry = some s)
    (free : ∀ mark ∈ [',', '\n'], mark ∉ entry) : s.Canonical := by
  obtain ⟨front, whole, person, -⟩ := lastWord_parts (trim entry)
  simp only [share?] at read
  split at read
  · cases read
  · next nonempty =>
    obtain ⟨portion, value, rfl⟩ := Option.map_eq_some_iff.1 read
    rw [List.isEmpty_iff] at nonempty
    refine ⟨clean_ofList (trimmed_lastWord (trimmed_trim entry)) fun mark member inside => ?_,
      ofList_ne_empty nonempty, isPortion_of_portion? value⟩
    rw [person] at inside
    apply free mark member
    apply mem_of_mem_trim
    rw [whole]
    exact List.mem_append_left _ (mem_of_mem_trimEnd inside)

theorem canonical_shares {text : List Char} (free : '\n' ∉ text) :
    ∀ s ∈ shares text, s.Canonical := by
  intro s member
  obtain ⟨entry, piece, read⟩ := List.mem_filterMap.1 member
  apply canonical_of_share? read
  intro mark marks inside
  rcases List.mem_cons.1 marks with rfl | marks
  · exact not_mem_of_mem_pieces piece inside
  · rw [List.mem_singleton.1 marks] at inside
    exact free (mem_of_mem_pieces piece inside)

theorem fields?_eq_some_iff {head name start finish : List Char} :
    fields? head = some (name, start, finish) ↔
      head = name ++ ',' :: (start ++ ',' :: finish) ∧ ',' ∉ name ∧ ',' ∉ start ∧
        name ≠ [] ∧ start ≠ [] ∧ finish ≠ [] := by
  constructor
  · intro read
    obtain ⟨⟨name', rest⟩, first, later⟩ := Option.bind_eq_some_iff.1 read
    obtain ⟨⟨start', finish'⟩, second, result⟩ := Option.bind_eq_some_iff.1 later
    obtain ⟨rfl, nameFree⟩ := eq_append_of_cut first
    obtain ⟨rfl, startFree⟩ := eq_append_of_cut second
    simp only [Bool.or_eq_true, List.isEmpty_iff] at result
    split at result
    · cases result
    · next nonempty =>
      cases result
      simp only [not_or] at nonempty
      exact ⟨rfl, nameFree, startFree, nonempty.1.1, nonempty.1.2, nonempty.2⟩
  · rintro ⟨rfl, nameFree, startFree, nameNonempty, startNonempty, finishNonempty⟩
    rw [fields?, cut_append nameFree]
    simp only [Option.bind_eq_bind, Option.bind_some]
    rw [cut_append startFree]
    simp [nameNonempty, startNonempty, finishNonempty]

theorem trim_ne_nil_of_head? {text : List Char} {c : Char} (first : text.head? = some c)
    (other : isBlank c = false) : trim text ≠ [] := by
  intro none
  have kept := head?_trim first other
  simp [none] at kept

theorem trim_ne_nil_of_getLast? {text : List Char} {c : Char} (last : text.getLast? = some c)
    (other : isBlank c = false) : trim text ≠ [] := by
  intro none
  have kept := getLast?_trim last other
  simp [none] at kept

theorem canonical_of_phase? {text : List Char} {p : Phase} (read : phase? text = some p)
    (free : '\n' ∉ text) : p.Canonical := by
  obtain ⟨⟨head, tail⟩, colon, later⟩ := Option.bind_eq_some_iff.1 read
  obtain ⟨⟨name, start, finish⟩, parts, result⟩ := Option.bind_eq_some_iff.1 later
  obtain ⟨rfl, headFree⟩ := eq_append_of_cut colon
  obtain ⟨whole, nameFree, startFree, nameNonempty, -, finishNonempty⟩ :=
    fields?_eq_some_iff.1 parts
  -- All three parts come out of the head, and nothing in there is a colon or a line feed.
  have trimmed := trimmed_trim head
  have inHead : ∀ c ∈ name ++ ',' :: (start ++ ',' :: finish), c ∈ head :=
    fun c member => mem_of_mem_trim (whole ▸ member)
  have noColon : ∀ {part : List Char}, (∀ c ∈ part, c ∈ head) → ':' ∉ part :=
    fun inside member => headFree (inside _ member)
  have noFeed : ∀ {part : List Char}, (∀ c ∈ part, c ∈ head) → '\n' ∉ part :=
    fun inside member => free (List.mem_append_left _ (inside _ member))
  have inName : ∀ c ∈ name, c ∈ head := fun c member => inHead c (by simp [member])
  have inStart : ∀ c ∈ start, c ∈ head := fun c member => inHead c (by simp [member])
  have inFinish : ∀ c ∈ finish, c ∈ head := fun c member => inHead c (by simp [member])
  cases result
  refine ⟨?_, ?_, ?_, ?_, ?_, ?_⟩
  · exact clean_trim (by simp [nameFree, noColon inName, noFeed inName])
  · obtain ⟨c, rest, rfl⟩ := List.exists_cons_of_ne_nil nameNonempty
    exact ofList_ne_empty (trim_ne_nil_of_head? rfl (trimmed.1 c (by rw [whole]; rfl)))
  · intro token member
    split at member
    · cases member
    · next other =>
      cases member
      refine ⟨clean_trim (by simp [startFree, noColon inStart, noFeed inStart]), ?_⟩
      intro same
      exact other (by simpa [chained] using congrArg String.toList same)
  · exact clean_trim (by simp [noColon inFinish, noFeed inFinish])
  · have last := List.getLast?_eq_some_getLast finishNonempty
    refine ofList_ne_empty (trim_ne_nil_of_getLast? last (trimmed.2 _ ?_))
    rw [whole, show name ++ ',' :: (start ++ ',' :: finish) = name ++ ',' :: start ++ [','] ++ finish
      by simp]
    exact List.mem_getLast?_append_of_mem_getLast? last
  · exact canonical_shares fun member => free (by simp [member])

theorem canonical_of_ofText? {text : List Char} {line : Line} (read : Line.ofText? text = some line)
    (free : '\n' ∉ text) : line.Canonical := by
  have inside : ∀ {c : Char}, c ∈ trim text → c ∈ text := mem_of_mem_trim
  have trimmed := trimmed_trim text
  unfold Line.ofText? at read
  split at read
  · cases read
  · next rest whole =>
    obtain ⟨p, phase, rfl⟩ := Option.map_eq_some_iff.1 read
    apply canonical_of_phase? phase
    intro member
    exact free (inside (by simp [whole, mem_of_mem_trim member]))
  · next nonempty dashless =>
    split at read
    · next colon =>
      cases read
      obtain ⟨front, whole⟩ := List.getLast?_eq_some_iff.1 colon
      rw [whole, List.dropLast_concat]
      refine ⟨clean_trim ?_, ?_⟩
      · intro mark single member
        rw [List.mem_singleton.1 single] at member
        exact free (inside (by simp [whole, member]))
      · intro dash
        rw [String.toList_ofList] at dash
        cases front with
        | nil => simp at dash
        | cons c rest =>
          have other : isBlank c = false := trimmed.1 c (by rw [whole]; rfl)
          rw [head?_trim rfl other] at dash
          cases dash
          exact dashless _ whole
    · cases read

theorem canonical_assemble {lines : List Line} (canonical : ∀ line ∈ lines, line.Canonical) :
    (∀ p ∈ (assemble lines).1, p.Canonical) ∧ Canonical (assemble lines).2 := by
  induction lines with
  | nil => simp [assemble, Canonical]
  | cons line rest ih =>
    have head := canonical line List.mem_cons_self
    have tail := ih fun line member => canonical line (List.mem_cons_of_mem _ member)
    cases line with
    | heading name =>
      refine ⟨by simp [assemble], ?_⟩
      intro p member
      rcases List.mem_cons.1 member with rfl | member
      · exact ⟨head.1, head.2, tail.1⟩
      · exact tail.2 p member
    | phase phase =>
      refine ⟨?_, tail.2⟩
      intro p member
      rcases List.mem_cons.1 member with rfl | member
      · exact head
      · exact tail.1 p member

theorem canonical_parse (text : String) : Canonical (parse text) := by
  refine (canonical_assemble fun line member => ?_).2
  obtain ⟨piece, pieces, read⟩ := List.mem_filterMap.1 member
  exact canonical_of_ofText? read (not_mem_of_mem_pieces pieces)

end Plan

end Roadmap
