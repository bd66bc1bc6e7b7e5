import Mathlib.Data.List.Basic
import Mathlib.Data.List.Nodup

namespace Roadmap

variable {α β : Type} {entries : List (String × α)} {name : String}

theorem lookup_cons_eq (first : String × α) (rest : List (String × α)) (name : String) :
    (first :: rest).lookup name = if name = first.1 then some first.2 else rest.lookup name := by
  obtain ⟨key, entry⟩ := first
  rw [List.lookup_cons]
  by_cases same : name = key
  · simp [same]
  · simp [same, beq_eq_false_iff_ne.2 same]

theorem lookup_map (change : α → β) (entries : List (String × α)) (name : String) :
    (entries.map fun (key, value) => (key, change value)).lookup name =
      (entries.lookup name).map change := by
  induction entries with
  | nil => rfl
  | cons entry rest ih =>
    rw [List.map_cons, lookup_cons_eq, lookup_cons_eq, ih]
    by_cases same : name = entry.1
    · simp [same]
    · simp [same]

theorem lookup_of_not_mem (absent : name ∉ entries.map Prod.fst) : entries.lookup name = none := by
  rw [List.lookup_eq_none_iff]
  intro entry member
  have other : name ≠ entry.1 := fun same => absent (same ▸ List.mem_map_of_mem member)
  simpa using other

theorem mem_of_lookup {value : α} (found : entries.lookup name = some value) :
    (name, value) ∈ entries := by
  obtain ⟨before, after, rfl, -⟩ := List.lookup_eq_some_iff.1 found
  simp

theorem lookup_of_mem (distinct : (entries.map Prod.fst).Nodup) {entry : String × α}
    (member : entry ∈ entries) : entries.lookup entry.1 = some entry.2 := by
  induction entries with
  | nil => cases member
  | cons first rest ih =>
    obtain ⟨absent, later⟩ := List.nodup_cons.1 distinct
    rw [lookup_cons_eq]
    rcases List.mem_cons.1 member with rfl | among
    · rw [if_pos rfl]
    · have other : entry.1 ≠ first.1 := fun same => absent (same ▸ List.mem_map_of_mem among)
      rw [if_neg other, ih later among]

theorem lookup_erase (distinct : (entries.map Prod.fst).Nodup) (name other : String) :
    (entries.eraseP (·.1 = name)).lookup other =
      if other = name then none else entries.lookup other := by
  induction entries with
  | nil => simp
  | cons first rest ih =>
    obtain ⟨absent, later⟩ := List.nodup_cons.1 distinct
    by_cases here : first.1 = name
    · rw [List.eraseP_cons_of_pos (by simpa using here), lookup_cons_eq, here]
      split
      · next same =>
        -- No other entry has the name of the one that is removed.
        apply lookup_of_not_mem
        rwa [same, ← here]
      · rfl
    · rw [List.eraseP_cons_of_neg (by simpa using here), lookup_cons_eq, lookup_cons_eq, ih later]
      split
      · next same => rw [if_neg (same ▸ here)]
      · rfl

end Roadmap
