import Mathlib.Data.List.TakeWhile
import Roadmap.Json.Printer
import Roadmap.Json.Reader
import Roadmap.Proofs.Json.Quoted

namespace Roadmap.Json

/-- A value without numbers, all of whose strings and names are texts. -/
inductive Textual : Json → Prop where
  | null : Textual .null
  | bool (value : Bool) : Textual (.bool value)
  | text (s : String) : Textual (.text s)
  | arr {items : List Json} (all : ∀ item ∈ items, Textual item) : Textual (.arr items)
  | record {members : List (String × Json)} (all : ∀ member ∈ members, Textual member.2) :
      Textual (.record members)

def Gap (text : List Char) : Prop := ∀ c ∈ text, isSpace c = true

theorem gap_nil : Gap [] := by simp [Gap]

theorem gap_lineBreak (indent : Indent) : Gap (lineBreak indent) := by
  intro c member
  cases indent with
  | none => simp [lineBreak] at member
  | some depth =>
    rcases List.mem_cons.1 member with rfl | space
    · rfl
    · rw [List.eq_of_mem_replicate space]
      rfl

theorem skipSpace_append {gap : List Char} (space : Gap gap) (text : List Char) :
    skipSpace (gap ++ text) = skipSpace text :=
  List.dropWhile_append_of_pos space

theorem skipSpace_cons {c : Char} (solid : isSpace c = false) (text : List Char) :
    skipSpace (c :: text) = c :: text :=
  List.dropWhile_cons_of_neg (by simp [solid])

theorem takeValue?_gap (fuel : Nat) {gap : List Char} (space : Gap gap) (text : List Char) :
    takeValue? fuel (gap ++ text) = takeValue? fuel text := by
  cases fuel with
  | zero => rfl
  | succ fuel => simp only [takeValue?, skipSpace_append space]

def Reads (v : Json) : Prop :=
  ∀ (indent : Indent) (fuel : Nat) (rest : List Char), 2 * (write indent v).length + 1 ≤ fuel →
    takeValue? fuel (write indent v ++ rest) = some (v, rest)

theorem head_write {v : Json} (textual : Textual v) (indent : Indent) :
    ∃ c text, write indent v = c :: text ∧ isSpace c = false ∧ c ≠ ']' := by
  cases textual with
  | null => exact ⟨'n', _, rfl, by decide⟩
  | bool value =>
    cases value with
    | false => exact ⟨'f', _, rfl, by decide⟩
    | true => exact ⟨'t', _, rfl, by decide⟩
  | text s => exact ⟨'"', _, rfl, by decide⟩
  | @arr items all =>
    cases items with
    | nil => exact ⟨'[', _, rfl, by decide⟩
    | cons first others => exact ⟨'[', _, rfl, by decide⟩
  | @record members all =>
    cases members with
    | nil => exact ⟨'{', _, rfl, by decide⟩
    | cons first others => exact ⟨'{', _, rfl, by decide⟩

theorem reads_null : Reads .null := by
  intro indent fuel rest enough
  obtain _ | fuel := fuel
  · omega
  rfl

theorem reads_bool (value : Bool) : Reads (.bool value) := by
  intro indent fuel rest enough
  obtain _ | fuel := fuel
  · omega
  cases value with
  | false => rfl
  | true => rfl

theorem takeString?_writeName (name : String) (rest : List Char) :
    ∃ inner, writeName (some name) ++ rest = '"' :: inner ∧
      takeString? inner = some (some name, rest) := by
  refine ⟨name.toList.flatMap escape ++ '"' :: rest, ?_, takeString?_quote name rest⟩
  simp [writeName, quote]

theorem reads_text (s : String) : Reads (.text s) := by
  intro indent fuel rest enough
  obtain _ | fuel := fuel
  · omega
  obtain ⟨inner, written, read⟩ := takeString?_writeName s rest
  have start : skipSpace (writeName (some s) ++ rest) = '"' :: inner := by
    rw [written]
    rfl
  rw [text, write, takeValue?, start]
  simp only [read, Option.map_some]

theorem takeItems?_writeItems {first : Json} {others : List Json}
    (reads : ∀ item ∈ first :: others, Reads item) (indent : Indent) {gap close : List Char}
    (space : Gap gap) (closing : Gap close) (rest : List Char) (fuel : Nat)
    (enough : 2 * (write indent first ++ writeItems indent others).length + 2 ≤ fuel) :
    takeItems? fuel (gap ++ (write indent first ++ (writeItems indent others ++
      (close ++ ']' :: rest)))) = some (first :: others, rest) := by
  -- On the items that follow; the text of each pays for the fuel that the rest of them needs.
  induction others generalizing first gap fuel with
  | nil =>
    obtain _ | fuel := fuel
    · omega
    have room : 2 * (write indent first).length + 1 ≤ fuel := by
      simp only [writeItems, List.append_nil] at enough
      omega
    have read := reads first List.mem_cons_self indent fuel (close ++ ']' :: rest) room
    have ending : skipSpace (close ++ ']' :: rest) = ']' :: rest := by
      rw [skipSpace_append closing, skipSpace_cons rfl]
    simp only [takeItems?, takeValue?_gap _ space, writeItems, List.nil_append, read, ending,
      Option.bind_eq_bind, Option.bind_some]
    rfl
  | cons second others ih =>
    obtain _ | fuel := fuel
    · omega
    simp only [writeItems, List.length_append, List.length_cons] at enough
    have later := ih (fun item member => reads item (List.mem_cons_of_mem _ member))
      (gap_lineBreak indent) fuel (by simp only [List.length_append]; omega)
    have read := reads first List.mem_cons_self indent fuel
      (writeItems indent (second :: others) ++ (close ++ ']' :: rest)) (by omega)
    have comma : skipSpace (writeItems indent (second :: others) ++ (close ++ ']' :: rest)) =
        ',' :: (lineBreak indent ++ (write indent second ++ (writeItems indent others ++
          (close ++ ']' :: rest)))) := by
      simp only [writeItems, List.cons_append, List.append_assoc]
      rfl
    simp only [takeItems?, takeValue?_gap _ space, read, comma, later,
      Option.bind_eq_bind, Option.bind_some]
    rfl

theorem reads_arr {items : List Json} (textual : ∀ item ∈ items, Textual item)
    (reads : ∀ item ∈ items, Reads item) : Reads (.arr items) := by
  intro indent fuel rest enough
  obtain _ | fuel := fuel
  · omega
  cases items with
  | nil => rfl
  | cons first others =>
    obtain ⟨c, text, start, solid, other⟩ :=
      head_write (textual first List.mem_cons_self) (deeper indent)
    simp only [write, List.length_cons, List.length_append] at enough
    have items := takeItems?_writeItems reads (deeper indent) gap_nil (gap_lineBreak indent) rest
      fuel (by simp only [List.length_append]; omega)
    have opening : skipSpace (write indent (.arr (first :: others)) ++ rest) =
        '[' :: (lineBreak (deeper indent) ++ (write (deeper indent) first ++
          (writeItems (deeper indent) others ++ (lineBreak indent ++ ']' :: rest)))) := by
      simp only [write, List.cons_append, List.append_assoc, List.nil_append]
      rfl
    have inside : skipSpace (lineBreak (deeper indent) ++ (write (deeper indent) first ++
          (writeItems (deeper indent) others ++ (lineBreak indent ++ ']' :: rest)))) =
        c :: (text ++ (writeItems (deeper indent) others ++
          (lineBreak indent ++ ']' :: rest))) := by
      rw [skipSpace_append (gap_lineBreak _), start, List.cons_append, skipSpace_cons solid]
    rw [start, List.nil_append, List.cons_append] at items
    rw [takeValue?, opening]
    simp only [inside]
    split
    · next bracket => exact absurd (List.cons.inj bracket).1 other
    · rw [items]
      rfl

theorem exists_colon (indent : Indent) : ∃ gap, Gap gap ∧ colon indent = ':' :: gap := by
  cases indent with
  | none => exact ⟨[], gap_nil, rfl⟩
  | some depth => exact ⟨[' '], by simp [Gap, isSpace], rfl⟩

def named (member : String × Json) : Option String × Json := (some member.1, member.2)

theorem takeMembers?_step {fuel : Nat} {gap text after : List Char} (space : Gap gap)
    (name : String) {value : Json} (read : takeValue? fuel text = some (value, after)) :
    takeMembers? (fuel + 1) (gap ++ (writeName (some name) ++ ':' :: text)) =
      match skipSpace after with
      | '}' :: rest => some ([(some name, value)], rest)
      | ',' :: rest => do
        let (others, rest) ← takeMembers? fuel rest
        return ((some name, value) :: others, rest)
      | _ => none := by
  obtain ⟨inner, written, taken⟩ := takeString?_writeName name (':' :: text)
  have start : skipSpace (gap ++ (writeName (some name) ++ ':' :: text)) = '"' :: inner := by
    rw [skipSpace_append space, written, skipSpace_cons rfl]
  have mark : skipSpace (':' :: text) = ':' :: text := skipSpace_cons (by decide) text
  simp only [takeMembers?, start, taken, mark, read, Option.bind_eq_bind, Option.bind_some]
  rfl

theorem takeMembers?_writeMembers {first : String × Json} {others : List (String × Json)}
    (reads : ∀ member ∈ first :: others, Reads member.2) (indent : Indent)
    {gap between close : List Char} (space : Gap gap) (apart : Gap between) (closing : Gap close)
    (rest : List Char) (fuel : Nat)
    (enough :
      2 * (write indent first.2 ++ writeMembers indent (others.map named)).length + 2 ≤ fuel) :
    takeMembers? fuel (gap ++ (writeName (some first.1) ++ ':' :: (between ++
      (write indent first.2 ++ (writeMembers indent (others.map named) ++
        (close ++ '}' :: rest)))))) = some ((first :: others).map named, rest) := by
  -- As for items: the text of each member pays for the fuel that the rest of them needs.
  induction others generalizing first gap between fuel with
  | nil =>
    obtain _ | fuel := fuel
    · omega
    simp only [List.map_nil, writeMembers, List.append_nil] at enough
    have read := reads first List.mem_cons_self indent fuel (close ++ '}' :: rest) (by omega)
    have ending : skipSpace (close ++ '}' :: rest) = '}' :: rest := by
      rw [skipSpace_append closing, skipSpace_cons rfl]
    rw [← takeValue?_gap fuel apart] at read
    simp only [List.map_nil, writeMembers, List.nil_append, takeMembers?_step space _ read, ending]
    rfl
  | cons second others ih =>
    obtain _ | fuel := fuel
    · omega
    obtain ⟨between', apart', colon⟩ := exists_colon indent
    simp only [List.map_cons, named, writeMembers, List.length_append, List.length_cons] at enough
    have later := ih (fun member among => reads member (List.mem_cons_of_mem _ among))
      (gap_lineBreak indent) apart' fuel (by simp only [List.length_append]; omega)
    have read := reads first List.mem_cons_self indent fuel
      (writeMembers indent ((second :: others).map named) ++ (close ++ '}' :: rest)) (by omega)
    rw [← takeValue?_gap fuel apart] at read
    have comma : skipSpace (writeMembers indent ((second :: others).map named) ++
        (close ++ '}' :: rest)) =
          ',' :: (lineBreak indent ++ (writeName (some second.1) ++ ':' :: (between' ++
            (write indent second.2 ++ (writeMembers indent (others.map named) ++
              (close ++ '}' :: rest)))))) := by
      simp only [List.map_cons, named, writeMembers, colon, List.cons_append, List.append_assoc]
      rfl
    rw [takeMembers?_step space _ read, comma]
    simp only [later]
    rfl

theorem reads_record {members : List (String × Json)} (reads : ∀ member ∈ members, Reads member.2) :
    Reads (.record members) := by
  intro indent fuel rest enough
  obtain _ | fuel := fuel
  · omega
  cases members with
  | nil => rfl
  | cons first others =>
    obtain ⟨between, apart, colon⟩ := exists_colon indent
    have shape : record (first :: others) =
        .obj ((some first.1, first.2) :: others.map named) := rfl
    rw [shape] at enough ⊢
    simp only [write, List.length_cons, List.length_append] at enough
    have members := takeMembers?_writeMembers reads (deeper indent) gap_nil apart
      (gap_lineBreak indent) rest fuel (by simp only [List.length_append]; omega)
    obtain ⟨inner, written, -⟩ := takeString?_writeName first.1 (':' :: (between ++
      (write (deeper indent) first.2 ++ (writeMembers (deeper indent) (others.map named) ++
        (lineBreak indent ++ '}' :: rest)))))
    have opening : skipSpace (write indent (.obj ((some first.1, first.2) :: others.map named)) ++
        rest) = '{' :: (lineBreak (deeper indent) ++ '"' :: inner) := by
      rw [← written]
      simp only [write, colon, List.cons_append, List.append_assoc, List.nil_append]
      rfl
    have inside : skipSpace (lineBreak (deeper indent) ++ '"' :: inner) = '"' :: inner := by
      rw [skipSpace_append (gap_lineBreak _), skipSpace_cons rfl]
    rw [List.nil_append, written] at members
    rw [takeValue?, opening]
    simp only [inside]
    split
    · next brace => cases brace
    · rw [members]
      rfl

theorem Textual.reads {v : Json} (textual : Textual v) : Reads v := by
  induction textual with
  | null => exact reads_null
  | bool value => exact reads_bool value
  | text s => exact reads_text s
  | arr all ih => exact reads_arr all ih
  | record all ih => exact reads_record ih

theorem readChars?_write {v : Json} (textual : Textual v) (indent : Indent) :
    readChars? (write indent v) = some v := by
  have read := textual.reads indent (2 * (write indent v).length + 2) [] (by omega)
  rw [List.append_nil] at read
  rw [readChars?, read]
  rfl

theorem read?_compact {v : Json} (textual : Textual v) : read? v.compact = some v := by
  rw [read?, compact, String.toList_ofList, readChars?_write textual]

end Roadmap.Json
