import Roadmap.Proofs.Entries
import Roadmap.Storage.FileTree

namespace Roadmap.FileTree

inductive Node where
  | file (text : Option String)
  | directory
  deriving DecidableEq

def node : FileTree → Node
  | .file text => .file text
  | .directory _ => .directory

def look (tree : FileTree) (place : Place) : Option Node := (tree.find? place).map node

theorem look_nil (tree : FileTree) : tree.look [] = some tree.node := by
  simp [look, find?]

theorem look_directory_cons (entries : List (String × FileTree)) (name : String) (rest : Place) :
    (directory entries).look (name :: rest) = (entries.lookup name).bind (look · rest) := by
  simp only [look, find?, Option.map_bind]
  rfl

theorem isDirectory_iff {tree : FileTree} {place : Place} :
    tree.isDirectory place = true ↔ tree.look place = some .directory := by
  unfold isDirectory look
  split
  · next entries found => simp [found, node]
  · next other =>
    cases found : tree.find? place with
    | none => simp
    | some entry =>
      cases entry with
      | file text => simp [node]
      | directory entries => exact absurd found (other entries)

theorem look_of_lookup {entries : List (String × FileTree)} {name : String} {child : FileTree}
    (found : entries.lookup name = some child) (rest : Place) :
    (directory entries).look (name :: rest) = child.look rest := by
  rw [look_directory_cons, found, Option.bind_some]

theorem exists_child {tree : FileTree} {name : String} {rest : Place} {found : Node}
    (stands : tree.look (name :: rest) = some found) :
    ∃ entries child, tree = .directory entries ∧ entries.lookup name = some child := by
  cases tree with
  | file text => cases stands
  | directory entries =>
    rw [look_directory_cons] at stands
    obtain ⟨child, below, -⟩ := Option.bind_eq_some_iff.1 stands
    exact ⟨entries, child, rfl, below⟩

theorem look_inside {tree : FileTree} {place : Place} (other : tree.look place ≠ some .directory)
    (name : String) (rest : Place) : tree.look (place ++ name :: rest) = none := by
  induction place generalizing tree with
  | nil =>
    cases tree with
    | file text => rfl
    | directory entries => exact absurd (look_nil _) other
  | cons first place ih =>
    rw [Option.eq_none_iff_forall_ne_some]
    intro node stands
    obtain ⟨entries, child, rfl, found⟩ := exists_child stands
    rw [look_of_lookup found] at other
    rw [List.cons_append, look_of_lookup found, ih other] at stands
    cases stands

theorem look_of_look_concat {tree : FileTree} {place : Place} {name : String}
    (inner : tree.look (place ++ [name]) ≠ none) : tree.look place = some .directory := by
  by_contra other
  exact inner (look_inside other name [])

theorem look_dropLast {tree : FileTree} {place : Place}
    (directory : tree.look place = some .directory) :
    tree.look place.dropLast = some .directory := by
  rcases List.eq_nil_or_concat' place with rfl | ⟨init, name, rfl⟩
  · exact directory
  · have inner : tree.look (init ++ [name]) ≠ none := by simp [directory]
    rw [List.dropLast_concat]
    exact look_of_look_concat inner

section Entries

variable {entries : List (String × FileTree)} {name : String} {entry : FileTree}

theorem lookup_put (name other : String) (entry : FileTree) (entries : List (String × FileTree)) :
    (put name entry entries).lookup other =
      if other = name then some entry else entries.lookup other := by
  induction entries with
  | nil => simp [put, lookup_cons_eq]
  | cons first rest ih =>
    rw [put]
    split
    · next same =>
      rw [lookup_cons_eq, lookup_cons_eq, same]
      split <;> rfl
    · next differ =>
      rw [lookup_cons_eq, lookup_cons_eq, ih]
      split
      · next same => rw [if_neg (same ▸ differ)]
      · rfl

theorem look_put (first : String) (rest : Place) :
    (directory (put name entry entries)).look (first :: rest) =
      if first = name then entry.look rest else (directory entries).look (first :: rest) := by
  rw [look_directory_cons, lookup_put, look_directory_cons]
  split <;> rfl

theorem eq_or_mem_of_mem_put {other : String × FileTree} (member : other ∈ put name entry entries) :
    other = (name, entry) ∨ other ∈ entries := by
  induction entries with
  | nil => exact .inl (List.mem_singleton.1 member)
  | cons first rest ih =>
    rw [put] at member
    split at member
    · rcases List.mem_cons.1 member with same | later
      · exact .inl same
      · exact .inr (List.mem_cons_of_mem _ later)
    · rcases List.mem_cons.1 member with same | later
      · exact .inr (same ▸ List.mem_cons_self)
      · exact (ih later).imp_right (List.mem_cons_of_mem _)

theorem nodup_put (names : (entries.map Prod.fst).Nodup) :
    ((put name entry entries).map Prod.fst).Nodup := by
  induction entries with
  | nil => simp [put]
  | cons first rest ih =>
    obtain ⟨absent, distinct⟩ := List.nodup_cons.1 names
    rw [put]
    split
    · next same => exact List.nodup_cons.2 ⟨same ▸ absent, distinct⟩
    · next differ =>
      refine List.nodup_cons.2 ⟨fun member => ?_, ih distinct⟩
      obtain ⟨other, among, same⟩ := List.mem_map.1 member
      rcases eq_or_mem_of_mem_put among with rfl | old
      · exact differ same.symm
      · exact absent (same ▸ List.mem_map_of_mem old)

end Entries

inductive Distinct : FileTree → Prop where
  | file (text : Option String) : Distinct (.file text)
  | directory {entries : List (String × FileTree)} (names : (entries.map Prod.fst).Nodup)
      (below : ∀ entry ∈ entries, Distinct entry.2) : Distinct (.directory entries)

theorem distinct_empty : empty.Distinct := .directory (by simp) (by simp)

theorem distinct_put {entries : List (String × FileTree)} (distinct : (directory entries).Distinct)
    {entry : FileTree} (distinct' : entry.Distinct) (name : String) :
    (directory (put name entry entries)).Distinct := by
  cases distinct with
  | directory names below =>
    refine .directory (nodup_put names) fun other member => ?_
    rcases eq_or_mem_of_mem_put member with rfl | old
    · exact distinct'
    · exact below other old

theorem distinct_child {entries : List (String × FileTree)}
    (distinct : (directory entries).Distinct) {name : String} {child : FileTree}
    (found : entries.lookup name = some child) : child.Distinct := by
  cases distinct with
  | directory names below => exact below _ (mem_of_lookup found)

def Bare (tree : FileTree) : Prop := ∀ name rest, tree.look (name :: rest) = none

theorem bare_file (text : Option String) : (file text).Bare := fun _ _ => rfl

theorem bare_empty : empty.Bare := fun _ _ => rfl

section Put

variable {tree leaf : FileTree} {place : Place} {name : String}

theorem look_putAt (bare : leaf.Bare) (inside : tree.look place = some .directory)
    (free : tree.look (place ++ [name]) ≠ some .directory) (other : Place) :
    (tree.putAt (place ++ [name]) leaf).look other =
      if other = place ++ [name] then some leaf.node else tree.look other := by
  induction place generalizing tree other with
  | nil =>
    cases tree with
    | file text => simp [look_nil, node] at inside
    | directory entries =>
      cases other with
      | nil => simp [putAt, look_nil, node]
      | cons first rest =>
        simp only [List.nil_append, putAt, look_put]
        by_cases here : first = name
        · subst here
          -- What was here is no directory, so there was nothing inside that could be lost.
          cases rest with
          | nil => simp [look_nil]
          | cons second more => simpa [bare second more] using (look_inside free second more).symm
        · simp [here]
  | cons first rest ih =>
    obtain ⟨entries, child, rfl, found⟩ := exists_child inside
    rw [look_of_lookup found] at inside
    rw [List.cons_append, look_of_lookup found] at free
    cases other with
    | nil => simp [putAt, look_nil, node]
    | cons second more =>
      simp only [List.cons_append, putAt, found, Option.getD_some, look_put, ih inside free]
      by_cases here : second = first
      · simp [here, look_of_lookup found]
      · simp [here]

theorem distinct_putAt (distinct : tree.Distinct) (distinct' : leaf.Distinct) :
    (tree.putAt place leaf).Distinct := by
  induction place generalizing tree with
  | nil => exact distinct'
  | cons first rest ih =>
    cases tree with
    | file text => exact distinct
    | directory entries =>
      refine distinct_put distinct (ih ?_) first
      cases found : entries.lookup first with
      | none => exact distinct_empty
      | some child => exact distinct_child distinct found

end Put

section Remove

variable {tree : FileTree} {place : Place} {text : Option String}

theorem look_removeAt (distinct : tree.Distinct) (below : place ≠ [])
    (file : tree.look place = some (.file text)) (other : Place) :
    (tree.removeAt place).look other = if other = place then none else tree.look other := by
  induction place generalizing tree other with
  | nil => exact absurd rfl below
  | cons first rest ih =>
    obtain ⟨entries, child, rfl, found⟩ := exists_child file
    cases rest with
    | nil =>
      cases distinct with
      | directory names _ =>
        cases other with
        | nil => simp [removeAt, look_nil, node]
        | cons second more =>
          -- With one name twice, the second entry would come to light when the first is removed.
          rw [removeAt, look_directory_cons, lookup_erase names]
          by_cases here : second = first
          · subst here
            cases more with
            | nil => simp
            | cons third more =>
              have other : (directory entries).look [second] ≠ some .directory := by simp [file]
              simpa using (look_inside other third more).symm
          · simp [here, look_directory_cons]
    | cons next rest =>
      rw [look_of_lookup found] at file
      cases other with
      | nil => simp [removeAt, found, look_nil, node]
      | cons second more =>
        have step := ih (distinct_child distinct found) (by simp) file more
        simp only [removeAt, found, look_put, step]
        by_cases here : second = first
        · simp [here, look_of_lookup found]
        · simp [here]

theorem distinct_removeAt (distinct : tree.Distinct) (place : Place) :
    (tree.removeAt place).Distinct := by
  induction place generalizing tree with
  | nil => cases tree <;> exact distinct
  | cons first rest ih =>
    cases tree with
    | file text => exact distinct
    | directory entries =>
      cases rest with
      | nil =>
        cases distinct with
        | directory names below =>
          refine .directory ?_ fun entry member => below entry (List.mem_of_mem_eraseP member)
          exact names.sublist (List.eraseP_sublist.map Prod.fst)
      | cons next rest =>
        simp only [removeAt]
        split
        · next child found => exact distinct_put distinct (ih (distinct_child distinct found)) first
        · exact distinct

end Remove

end Roadmap.FileTree
