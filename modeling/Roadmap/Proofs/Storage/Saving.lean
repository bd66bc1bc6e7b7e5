import Roadmap.Proofs.Storage.Reading

namespace Roadmap.FileTree

open Roadmap.Path

def Fits (place : Place) : Prop := ∀ name ∈ place.getLast?, Path.isName name = true

def Passable (tree : FileTree) (place : Place) : Prop :=
  tree.look place = some .directory ∨ (tree.look place = none ∧ Fits place)

theorem makeWay_cases {tree made : FileTree} {place final : Place} {step : Step}
    {rest : List Step} (here : tree.look place = some .directory)
    (done : tree.makeWay place (step :: rest) = (some final, made)) :
    (tree.look (step.move place) = some .directory ∧
      tree.makeWay (step.move place) rest = (some final, made)) ∨
    ∃ name, step = .into name ∧ tree.look (place ++ [name]) = none ∧ Path.isName name = true ∧
      (tree.putAt (place ++ [name]) empty).makeWay (place ++ [name]) rest = (some final, made) := by
  cases step with
  | stay => exact .inl ⟨here, done⟩
  | up => exact .inl ⟨look_dropLast here, done⟩
  | into name =>
    rw [makeWay] at done
    split at done
    · next entries found => exact .inl ⟨by simp [look, Step.move, found, node], done⟩
    · cases done
    · next missing =>
      split at done
      · next fits => exact .inr ⟨name, rfl, by simp [look, missing], fits, done⟩
      · cases done

theorem makeWay_of_directory {tree : FileTree} {place : Place} {step : Step}
    (next : tree.look (step.move place) = some .directory) (rest : List Step) :
    tree.makeWay place (step :: rest) = tree.makeWay (step.move place) rest := by
  cases step with
  | stay => rfl
  | up => rfl
  | into name =>
    obtain ⟨entry, found, same⟩ := Option.map_eq_some_iff.1 next
    cases entry with
    | file text => cases same
    | directory entries =>
      rw [makeWay]
      simp only [Step.move] at found
      rw [found]
      rfl

theorem makeWay_of_missing {tree : FileTree} {place : Place} {name : String}
    (missing : tree.look (place ++ [name]) = none) (fits : Path.isName name = true)
    (rest : List Step) :
    tree.makeWay place (.into name :: rest) =
      (tree.putAt (place ++ [name]) empty).makeWay (place ++ [name]) rest := by
  rw [makeWay, Option.map_eq_none_iff.1 missing]
  simp only [fits, if_true]

theorem look_putAt_empty {tree : FileTree} {place : Place} {name : String}
    (here : tree.look place = some .directory) (missing : tree.look (place ++ [name]) = none)
    (other : Place) :
    (tree.putAt (place ++ [name]) empty).look other =
      if other = place ++ [name] then some .directory else tree.look other :=
  look_putAt bare_empty here (by simp [missing]) other

theorem passable_putAt {tree : FileTree} {place other : Place} {name : String}
    (here : tree.look place = some .directory) (missing : tree.look (place ++ [name]) = none)
    (fits : Path.isName name = true) :
    (tree.putAt (place ++ [name]) empty).Passable other ↔ tree.Passable other := by
  have stands := look_putAt_empty here missing other
  by_cases same : other = place ++ [name]
  · subst same
    rw [if_pos rfl] at stands
    have named : Fits (place ++ [name]) := by
      intro last ending
      rw [List.getLast?_concat] at ending
      cases ending
      exact fits
    exact ⟨fun _ => .inr ⟨missing, named⟩, fun _ => .inl stands⟩
  · rw [if_neg same] at stands
    rw [Passable, Passable, stands]

theorem passable_of_makeWay {tree made : FileTree} {place final : Place} {steps : List Step}
    (here : tree.look place = some .directory)
    (done : tree.makeWay place steps = (some final, made)) :
    ∀ other ∈ visits place steps, tree.Passable other := by
  induction steps generalizing tree place with
  | nil => simp [visits]
  | cons step rest ih =>
    intro other member
    rcases makeWay_cases here done with ⟨next, later⟩ | ⟨name, rfl, missing, fits, later⟩
    · rcases List.mem_cons.1 member with rfl | member
      · exact .inl next
      · exact ih next later other member
    · have stands := look_putAt_empty here missing (place ++ [name])
      rw [if_pos rfl] at stands
      rw [← passable_putAt here missing fits]
      rcases List.mem_cons.1 member with rfl | member
      · exact .inl stands
      · exact ih stands later other member

theorem makeWay_of_passable {tree : FileTree} {place : Place} {steps : List Step}
    (distinct : tree.Distinct) (here : tree.look place = some .directory)
    (passable : ∀ other ∈ visits place steps, tree.Passable other) :
    ∃ made, tree.makeWay place steps = (some (walk place steps), made) ∧ made.Distinct ∧
      ∀ other, made.look other =
        if other ∈ visits place steps then some .directory else tree.look other := by
  -- A directory that one step makes is there for the steps after it, so the tree varies.
  induction steps generalizing tree place with
  | nil => exact ⟨tree, rfl, distinct, by simp [visits]⟩
  | cons step rest ih =>
    have later : ∀ other ∈ visits (step.move place) rest, tree.Passable other :=
      fun other member => passable other (List.mem_cons_of_mem _ member)
    by_cases next : tree.look (step.move place) = some .directory
    · obtain ⟨made, way, distinct', stands⟩ := ih distinct next later
      refine ⟨made, (makeWay_of_directory next rest).trans way, distinct', fun other => ?_⟩
      by_cases same : other = step.move place
      · simp [visits, stands, same, next]
      · simp [visits, stands, same]
    · obtain ⟨missing, fits⟩ := (passable _ List.mem_cons_self).resolve_left next
      cases step with
      -- Only a step inwards can lead to where no directory is.
      | stay => exact absurd here next
      | up => exact absurd (look_dropLast here) next
      | into name =>
        have short : Path.isName name = true := fits name (by simp [Step.move])
        have put := look_putAt_empty here missing
        have inside := put (place ++ [name])
        rw [if_pos rfl] at inside
        obtain ⟨made, way, distinct', stands⟩ :=
          ih (distinct_putAt distinct distinct_empty) inside
            fun other member => (passable_putAt here missing short).2 (later other member)
        refine ⟨made, (makeWay_of_missing missing short rest).trans way, distinct', fun other => ?_⟩
        by_cases same : other = place ++ [name]
        · simp [visits, stands, same, Step.move, inside]
        · simp [visits, stands, same, Step.move, put]

structure Admits (tree : FileTree) (path : Path) : Prop where
  usable : path.isUsable = true ∧ path.parent.isUsable = true
  named : ∃ name, path.fileName? = some name ∧ Path.isName name = true
  passable : ∀ place ∈ path.way, tree.Passable place
  free : path.place ∉ path.way ∧ tree.look path.place ≠ some .directory

theorem save_cases {tree : FileTree} {path : Path} {text : Option String}
    (done : (tree.save path text).1 = .ok ()) :
    ∃ place made name, tree.makeDirectories path.parent = (some place, made) ∧
      path.fileName? = some name ∧ path.isUsable = true ∧ Path.isName name = true ∧
      made.look (place ++ [name]) ≠ some .directory := by
  unfold save at done
  split at done
  · next place made name way named =>
    dsimp only at done
    split at done
    · next allowed =>
      simp only [Bool.and_eq_true, Bool.not_eq_true'] at allowed
      obtain ⟨⟨usable, fits⟩, free⟩ := allowed
      refine ⟨place, made, name, way, named, usable, fits, fun directory => ?_⟩
      rw [isDirectory_iff.2 directory] at free
      cases free
    · cases done
  · cases done

theorem admits_of_save {tree : FileTree} {path : Path} {text : Option String} (proper : tree.Proper)
    (done : (tree.save path text).1 = .ok ()) : tree.Admits path := by
  obtain ⟨place, made, name, way, named, usable, fits, free⟩ := save_cases done
  rw [makeDirectories] at way
  split at way
  · next reached =>
    have passable := passable_of_makeWay proper.root way
    obtain ⟨made', way', -, stands⟩ := makeWay_of_passable proper.distinct proper.root passable
    cases way'.symm.trans way
    rw [← place_eq named, stands] at free
    refine ⟨⟨usable, reached⟩, ⟨name, named, fits⟩, passable, ?_⟩
    by_cases among : path.place ∈ visits [] path.parent.steps
    · rw [if_pos among] at free
      exact absurd rfl free
    · rw [if_neg among] at free
      exact ⟨among, free⟩
  · cases way

theorem not_mem_way_of_file {tree : FileTree} {path : Path} {place : Place} {text : Option String}
    (admits : tree.Admits path) (file : tree.look place = some (.file text)) :
    place ∉ path.way := by
  intro among
  rcases admits.passable place among with directory | ⟨missing, -⟩
  · rw [file] at directory
    cases directory
  · rw [file] at missing
    cases missing

theorem makeDirectories_of_admits {tree : FileTree} {path : Path} (proper : tree.Proper)
    (admits : tree.Admits path) :
    ∃ made, tree.makeDirectories path.parent = (some (walk [] path.parent.steps), made) ∧
      made.Proper ∧
      ∀ place, made.look place =
        if place ∈ path.way then some .directory else tree.look place := by
  obtain ⟨made, way, distinct, stands⟩ :=
    makeWay_of_passable proper.distinct proper.root admits.passable
  refine ⟨made, by rw [makeDirectories, if_pos admits.usable.2, way], ⟨?_, distinct⟩, stands⟩
  rw [stands, proper.root, ite_self]

theorem more_of_admits {tree made : FileTree} {path : Path} (admits : tree.Admits path)
    (stands : ∀ place, made.look place =
      if place ∈ path.way then some .directory else tree.look place) (place : Place)
    (present : tree.look place ≠ none) : made.look place = tree.look place := by
  rw [stands]
  split
  · next among =>
    exact ((admits.passable place among).resolve_right fun missing => present missing.1).symm
  · rfl

theorem save_of_admits {tree : FileTree} {path : Path} (proper : tree.Proper)
    (admits : tree.Admits path) (text : Option String) :
    ∃ saved, tree.save path text = (.ok (), saved) ∧ saved.Proper ∧
      ∀ place, saved.look place =
        if place = path.place then some (.file text)
        else if place ∈ path.way then some .directory
        else tree.look place := by
  obtain ⟨made, way, proper', stands⟩ := makeDirectories_of_admits proper admits
  obtain ⟨name, named, fits⟩ := admits.named
  have inside : made.look (walk [] path.parent.steps) = some .directory := by
    apply look_walk proper'.root
    intro place member
    exact (stands place).trans (if_pos member)
  have free : made.look path.place ≠ some .directory := by
    rw [stands, if_neg admits.free.1]
    exact admits.free.2
  rw [place_eq named] at free ⊢
  have put := look_putAt (bare_file text) inside free
  refine ⟨made.putAt (walk [] path.parent.steps ++ [name]) (.file text), ?_,
    ⟨?_, distinct_putAt proper'.distinct (.file text)⟩, fun place => ?_⟩
  · have other : made.isDirectory (walk [] path.parent.steps ++ [name]) = false := by
      rw [← Bool.not_eq_true, isDirectory_iff]
      exact free
    rw [save, way, named]
    simp only [admits.usable.1, fits, other, Bool.not_false, Bool.and_self, if_true]
  · rw [put, if_neg (by simp), proper'.root]
  · rw [put, stands]
    rfl

theorem readText_of_file {tree : FileTree} {path : Path} {text : String} (proper : tree.Proper)
    (admits : tree.Admits path) (made : ∀ place ∈ path.way, tree.look place = some .directory)
    (file : tree.look path.place = some (.file (some text))) :
    tree.readText path = .ok (some text) := by
  obtain ⟨name, named, -⟩ := admits.named
  obtain ⟨stays, still, steps⟩ := steps_eq named
  have inside := look_walk proper.root made
  have waits : tree.follow? (walk [] path.parent.steps) stays =
      some (walk [] path.parent.steps) := by
    rw [follow?_of_directories inside fun other member => visits_stays still member ▸ inside,
      walk_stays still]
  have followed : tree.follow? [] path.steps = some path.place := by
    rw [place_eq named] at file ⊢
    rw [steps, follow?_append, follow?_of_directories proper.root made, Option.bind_some,
      follow?_append, waits, Option.bind_some, follow?_cons,
      if_pos ⟨inside, by simp [Step.move, file]⟩]
    rfl
  exact readText_of_located (locate?_eq_some_iff.2 ⟨admits.usable.1, followed⟩) file

theorem clear_cases {tree : FileTree} {path : Path} {text? : Option String} (proper : tree.Proper)
    (read : tree.readText path = .ok text?) :
    ∃ cleared, tree.clear path = (.ok (), cleared) ∧
      ((text? = none ∧ cleared = tree) ∨
        ∃ text, text? = some text ∧ tree.look path.place = some (.file (some text)) ∧
          cleared.Proper ∧
          ∀ place, cleared.look place = if place = path.place then none else tree.look place) := by
  rcases readText_cases proper read with ⟨none, unlocated⟩ | ⟨text, some, located, file⟩
  · exact ⟨tree, by rw [clear, unlocated], .inl ⟨none, rfl⟩⟩
  · have below : path.place ≠ [] := by
      intro root
      rw [root, proper.root] at file
      cases file
    have stands := look_removeAt proper.distinct below file
    refine ⟨tree.removeAt path.place, ?_, .inr ⟨text, some, file, ⟨?_, ?_⟩, stands⟩⟩
    · have other : ¬ tree.isDirectory path.place = true := by
        rw [isDirectory_iff, file]
        simp
      rw [clear, located]
      simp only [other]
      rfl
    · rw [stands, if_neg (Ne.symm below), proper.root]
    · exact distinct_removeAt proper.distinct _

end Roadmap.FileTree
