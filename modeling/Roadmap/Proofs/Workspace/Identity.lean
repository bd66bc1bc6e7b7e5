import Mathlib.Algebra.GroupWithZero.Nat
import Roadmap.Proofs.Json.Record
import Roadmap.Workspace.Identity

namespace Roadmap.Identity

def letters (id : Identity) : List Char := id.digits.map fun d => Nat.digitChar d.val

theorem length_letters (id : Identity) : id.letters.length = 32 := by
  rw [letters, List.length_map, id.length_eq]

theorem hexDigit?_digitChar : ∀ d : Fin 16,
    (Json.hexDigit? (Nat.digitChar d.val)).map (Fin.ofNat 16) = some d := by
  decide

theorem dash_not_mem_letters (id : Identity) : '-' ∉ id.letters := by
  have other : ∀ d : Fin 16, Nat.digitChar d.val ≠ '-' := by decide
  intro member
  obtain ⟨d, -, same⟩ := List.mem_map.1 member
  exact other d same

theorem ofDigits?_letters (id : Identity) : ofDigits? id.letters = some id := by
  have read : id.letters.mapM (fun c => (Json.hexDigit? c).map (Fin.ofNat 16)) =
      some (id.digits.map fun d => d) :=
    mapM_map_of_read fun d _ => hexDigit?_digitChar d
  rw [List.map_id'] at read
  simp only [ofDigits?, read, Option.bind_eq_bind, Option.bind_some, dif_pos id.length_eq]

theorem mem_of_mem_groups {α : Type} {lengths : List Nat} {items group : List α}
    (member : group ∈ groups lengths items) : ∀ item ∈ group, item ∈ items := by
  induction lengths generalizing items with
  | nil => cases member
  | cons n lengths ih =>
    rcases List.mem_cons.1 member with rfl | later
    · exact fun item => List.mem_of_mem_take
    · exact fun item among => List.mem_of_mem_drop (ih later item among)

theorem flatten_groups {α : Type} {lengths : List Nat} {items : List α}
    (enough : items.length ≤ lengths.sum) : (groups lengths items).flatten = items := by
  induction lengths generalizing items with
  | nil => simpa [groups] using enough
  | cons n lengths ih =>
    rw [List.sum_cons] at enough
    rw [groups, List.flatten_cons, ih (by rw [List.length_drop]; omega), List.take_append_drop]

theorem map_length_groups {α : Type} {lengths : List Nat} {items : List α}
    (enough : lengths.sum ≤ items.length) : (groups lengths items).map List.length = lengths := by
  induction lengths generalizing items with
  | nil => rfl
  | cons n lengths ih =>
    rw [List.sum_cons] at enough
    rw [groups, List.map_cons, List.length_take, ih (by rw [List.length_drop]; omega),
      Nat.min_eq_left (by omega)]

theorem ofGroups?_write (id : Identity) : ofGroups? id.write = some id := by
  have split : id.write.splitOn '-' = groups groupLengths id.letters := by
    refine List.splitOn_intercalate '-' ?_ (by simp [groups, groupLengths])
    intro group member dash
    exact dash_not_mem_letters id (mem_of_mem_groups member '-' dash)
  have lengths : (groups groupLengths id.letters).map List.length = groupLengths :=
    map_length_groups (Nat.le_of_eq (length_letters id).symm)
  have whole : (groups groupLengths id.letters).flatten = id.letters :=
    flatten_groups (Nat.le_of_eq (length_letters id))
  simp only [ofGroups?, split, lengths, if_true, whole, ofDigits?_letters]

theorem length_write (id : Identity) : id.write.length = 36 := by
  have shape : id.write = ['-'].intercalate (groups groupLengths id.letters) := rfl
  simp [shape, List.intercalate, groups, groupLengths, length_letters]

theorem parse?_toString (id : Identity) : parse? id.toString = some id := by
  -- Of the forms that are read, only the groups alone are as long.
  have length := length_write id
  simp only [parse?, Identity.toString, String.toList_ofList, length]
  simp [ofGroups?_write]

end Roadmap.Identity
