import Mathlib.Data.List.Perm.Basic
import Roadmap.Schedule.Person

namespace Roadmap

theorem mem_insertName {name other : String} {names : List String} :
    other ∈ insertName name names ↔ other = name ∨ other ∈ names := by
  induction names with
  | nil => simp [insertName]
  | cons first rest ih =>
    unfold insertName
    split_ifs with less same
    · exact List.mem_cons
    · simp [same]
    · rw [List.mem_cons, ih, List.mem_cons]
      exact or_left_comm

theorem sorted_insertName {names : List String} (sorted : names.Pairwise (· < ·)) (name : String) :
    (insertName name names).Pairwise (· < ·) := by
  induction names with
  | nil => exact List.pairwise_singleton _ _
  | cons first rest ih =>
    rw [List.pairwise_cons] at sorted
    unfold insertName
    split_ifs with less same
    · refine List.pairwise_cons.2 ⟨fun other member => ?_, List.pairwise_cons.2 sorted⟩
      rcases List.mem_cons.1 member with rfl | later
      · exact less
      · exact String.lt_trans less (sorted.1 other later)
    · exact List.pairwise_cons.2 sorted
    · refine List.pairwise_cons.2 ⟨fun other member => ?_, ih sorted.2⟩
      rcases mem_insertName.1 member with rfl | later
      · by_contra more
        exact same (String.le_antisymm (String.not_lt.1 more) (String.not_lt.1 less))
      · exact sorted.1 other later

theorem mem_foldl_insertName {added names : List String} {name : String} :
    name ∈ added.foldl (fun names name => insertName name names) names ↔
      name ∈ added ∨ name ∈ names := by
  induction added generalizing names with
  | nil => simp
  | cons first added ih =>
    rw [List.foldl_cons, ih, mem_insertName, List.mem_cons, or_assoc, or_left_comm]

theorem sorted_foldl_insertName (added : List String) {names : List String}
    (sorted : names.Pairwise (· < ·)) :
    (added.foldl (fun names name => insertName name names) names).Pairwise (· < ·) := by
  induction added generalizing names with
  | nil => exact sorted
  | cons first added ih => exact ih (sorted_insertName sorted first)

theorem sorted_personNames (projects : List Project) :
    (personNames projects).Pairwise (· < ·) :=
  sorted_foldl_insertName _ .nil

theorem nodup_personNames (projects : List Project) : (personNames projects).Nodup :=
  (sorted_personNames projects).imp String.ne_of_lt

theorem mem_personNames {projects : List Project} {name : String} :
    name ∈ personNames projects ↔
      ∃ p ∈ projects, ∃ phase ∈ p.phases, ∃ share ∈ phase.shares, share.person = name := by
  simp [personNames, mem_foldl_insertName]

theorem eq_of_sorted {names names' : List String} (sorted : names.Pairwise (· < ·))
    (sorted' : names'.Pairwise (· < ·)) (same : ∀ name, name ∈ names ↔ name ∈ names') :
    names = names' := by
  have distinct : names.Nodup := sorted.imp String.ne_of_lt
  have distinct' : names'.Nodup := sorted'.imp String.ne_of_lt
  refine List.Perm.eq_of_pairwise (fun a b _ _ less more => ?_) sorted sorted'
    ((List.perm_ext_iff_of_nodup distinct distinct').2 same)
  exact absurd (String.lt_trans less more) (String.lt_irrefl a)

end Roadmap
