import Roadmap.Proofs.Storage.FileTree

namespace Roadmap

namespace Path

open FileTree (Place)

def Step.move (place : Place) : Step → Place
  | .stay => place
  | .up => place.dropLast
  | .into name => place ++ [name]

def walk (place : Place) (steps : List Step) : Place := steps.foldl Step.move place

def visits (place : Place) : List Step → List Place
  | [] => []
  | step :: rest => step.move place :: visits (step.move place) rest

/-- The place that a path names when nothing is missing on its way. -/
def place (path : Path) : Place := walk [] path.steps

def way (path : Path) : List Place := visits [] path.parent.steps

theorem steps_trimmed (path : Path) :
    ∃ stays, (∀ step ∈ stays, step = Step.stay) ∧ path.steps = path.trimmed.steps ++ stays := by
  have parts := congrArg List.reverse (List.takeWhile_append_dropWhile
    (p := fun part => decide (Step.ofPart part = .stay)) (l := path.parts.reverse))
  rw [List.reverse_append, List.reverse_reverse] at parts
  refine ⟨(path.parts.reverse.takeWhile fun part => Step.ofPart part = .stay).reverse.map
    Step.ofPart, ?_, ?_⟩
  · intro step member
    obtain ⟨part, among, rfl⟩ := List.mem_map.1 member
    simpa using List.all_eq_true.1 List.all_takeWhile part (List.mem_reverse.1 among)
  · have whole := congrArg (List.map Step.ofPart) parts
    rw [List.map_append] at whole
    exact whole.symm

theorem exists_last_part {path : Path} {name : String} (named : path.fileName? = some name) :
    ∃ init part, path = ⟨init ++ [part], path.room⟩ ∧ Step.ofPart part = .into name := by
  unfold fileName? at named
  split at named
  · next other last =>
    cases named
    rw [steps, List.getLast?_map] at last
    obtain ⟨part, ending, entered⟩ := Option.map_eq_some_iff.1 last
    obtain ⟨init, whole⟩ := List.getLast?_eq_some_iff.1 ending
    exact ⟨init, part, congrArg (Path.mk · path.room) whole, entered⟩
  · cases named

theorem steps_eq {path : Path} {name : String} (named : path.fileName? = some name) :
    ∃ stays, (∀ step ∈ stays, step = Step.stay) ∧
      path.steps = path.parent.steps ++ (stays ++ [.into name]) := by
  obtain ⟨init, part, whole, entered⟩ := exists_last_part named
  have kept : trimmed ⟨init ++ [part], path.room⟩ = ⟨init ++ [part], path.room⟩ := by
    rw [trimmed, List.reverse_concat, List.dropWhile_cons_of_neg (by simp [entered]),
      ← List.reverse_concat, List.reverse_reverse]
  obtain ⟨stays, still, front⟩ := steps_trimmed ⟨init, path.room⟩
  refine ⟨stays, still, ?_⟩
  rw [whole, parent, kept, List.dropLast_concat, ← List.append_assoc, ← front]
  simp [steps, entered]

theorem walk_append (place : Place) (steps steps' : List Step) :
    walk place (steps ++ steps') = walk (walk place steps) steps' := List.foldl_append ..

theorem walk_stays {stays : List Step} (still : ∀ step ∈ stays, step = .stay) (place : Place) :
    walk place stays = place := by
  induction stays with
  | nil => rfl
  | cons step rest ih =>
    cases still step List.mem_cons_self
    exact ih fun other member => still other (List.mem_cons_of_mem _ member)

theorem visits_stays {stays : List Step} (still : ∀ step ∈ stays, step = .stay)
    {place other : Place} (member : other ∈ visits place stays) : other = place := by
  induction stays with
  | nil => cases member
  | cons step rest ih =>
    cases still step List.mem_cons_self
    rcases List.mem_cons.1 member with here | later
    · exact here
    · exact ih (fun other among => still other (List.mem_cons_of_mem _ among)) later

theorem place_eq {path : Path} {name : String} (named : path.fileName? = some name) :
    path.place = walk [] path.parent.steps ++ [name] := by
  obtain ⟨stays, still, steps⟩ := steps_eq named
  rw [place, steps, walk_append, walk_append, walk_stays still]
  rfl

end Path

namespace FileTree

open Roadmap.Path

/-- The root is a directory, and no directory has two entries of one name. -/
structure Proper (tree : FileTree) : Prop where
  root : tree.look [] = some .directory
  distinct : tree.Distinct

theorem follow?_cons (tree : FileTree) (place : Place) (step : Step) (rest : List Step) :
    tree.follow? place (step :: rest) =
      if tree.look place = some .directory ∧ tree.look (step.move place) ≠ none then
        tree.follow? (step.move place) rest
      else none := by
  rw [follow?.eq_def]
  by_cases here : tree.look place = some .directory
  · simp only [isDirectory_iff.2 here, if_true]
    cases step with
    | stay => simp [Step.move, here]
    | up => simp [Step.move, here, look_dropLast here]
    | into name =>
      have entry : (tree.find? (place ++ [name])).isSome = true ↔
          tree.look (place ++ [name]) ≠ none := by
        simp [look, Option.isSome_iff_ne_none]
      simp only [Step.move, here, entry, true_and]
  · have other : ¬ tree.isDirectory place = true := fun found => here (isDirectory_iff.1 found)
    simp only [other, here, false_and, if_false]
    rfl

theorem follow?_append (tree : FileTree) (place : Place) (steps steps' : List Step) :
    tree.follow? place (steps ++ steps') =
      (tree.follow? place steps).bind (tree.follow? · steps') := by
  induction steps generalizing place with
  | nil => rfl
  | cons step rest ih =>
    rw [List.cons_append, follow?_cons, follow?_cons, ih]
    split <;> rfl

theorem follow?_eq_some {tree : FileTree} {place final : Place} {steps : List Step}
    (present : tree.look place ≠ none) (found : tree.follow? place steps = some final) :
    final = walk place steps ∧ tree.look final ≠ none := by
  induction steps generalizing place with
  | nil =>
    cases found
    exact ⟨rfl, present⟩
  | cons step rest ih =>
    rw [follow?_cons] at found
    split at found
    · next entered => exact ih entered.2 found
    · cases found

theorem follow?_of_directories {tree : FileTree} {place : Place} {steps : List Step}
    (here : tree.look place = some .directory)
    (directories : ∀ other ∈ visits place steps, tree.look other = some .directory) :
    tree.follow? place steps = some (walk place steps) := by
  induction steps generalizing place with
  | nil => rfl
  | cons step rest ih =>
    have next := directories (step.move place) List.mem_cons_self
    rw [follow?_cons, if_pos ⟨here, by simp [next]⟩]
    exact ih next fun other member => directories other (List.mem_cons_of_mem _ member)

theorem look_walk {tree : FileTree} {place : Place} {steps : List Step}
    (here : tree.look place = some .directory)
    (directories : ∀ other ∈ visits place steps, tree.look other = some .directory) :
    tree.look (walk place steps) = some .directory := by
  induction steps generalizing place with
  | nil => exact here
  | cons step rest ih =>
    exact ih (directories _ List.mem_cons_self) fun other member =>
      directories other (List.mem_cons_of_mem _ member)

/-- Two trees have the same everywhere but at one place, where neither has a directory. -/
structure AgreeOff (spot : Place) (tree tree' : FileTree) : Prop where
  left : tree.look spot ≠ some .directory
  right : tree'.look spot ≠ some .directory
  same : ∀ place, place ≠ spot → tree.look place = tree'.look place

theorem AgreeOff.follow? {spot place : Place} {tree tree' : FileTree} {steps : List Step}
    (agree : AgreeOff spot tree tree') (elsewhere : walk place steps ≠ spot) :
    tree.follow? place steps = tree'.follow? place steps := by
  induction steps generalizing place with
  | nil => rfl
  | cons step rest ih =>
    rw [follow?_cons, follow?_cons]
    by_cases here : place = spot
    · subst here
      rw [if_neg fun both => agree.left both.1, if_neg fun both => agree.right both.1]
    · rw [agree.same place here]
      by_cases next : step.move place = spot
      · -- The spot is no directory, and there are more steps to go.
        cases rest with
        | nil => exact absurd next elsewhere
        | cons second more =>
          have stuck : ∀ tree : FileTree, tree.look spot ≠ some .directory →
              tree.follow? spot (second :: more) = none := by
            intro tree other
            rw [follow?_cons, if_neg fun both => other both.1]
          rw [next, stuck tree agree.left, stuck tree' agree.right]
          simp
      · rw [agree.same _ next, ih elsewhere]

theorem readText_eq (tree : FileTree) (path : Path) :
    tree.readText path =
      match (tree.locate? path).bind tree.look with
      | none => .ok none
      | some (.file (some text)) => .ok (some text)
      | some _ => .error .medium := by
  rw [readText]
  cases tree.locate? path with
  | none => rfl
  | some place =>
    simp only [Option.bind_some, look]
    cases tree.find? place with
    | none => rfl
    | some entry =>
      cases entry with
      | file text => cases text <;> rfl
      | directory entries => rfl

theorem locate?_eq_some_iff {tree : FileTree} {path : Path} {place : Place} :
    tree.locate? path = some place ↔
      path.isUsable = true ∧ tree.follow? [] path.steps = some place := by
  unfold locate?
  split
  · next usable => simp [usable]
  · next unusable => simp [unusable]

theorem locate?_eq_some {tree : FileTree} {path : Path} {place : Place} (proper : tree.Proper)
    (found : tree.locate? path = some place) : place = path.place ∧ tree.look place ≠ none :=
  follow?_eq_some (by simp [proper.root]) (locate?_eq_some_iff.1 found).2

theorem readText_of_located {tree : FileTree} {path : Path} {place : Place} {text : String}
    (located : tree.locate? path = some place)
    (file : tree.look place = some (.file (some text))) :
    tree.readText path = .ok (some text) := by
  rw [readText_eq, located, Option.bind_some, file]

theorem AgreeOff.readText {spot : Place} {tree tree' : FileTree} {path : Path}
    (proper : tree.Proper) (agree : AgreeOff spot tree tree') (elsewhere : path.place ≠ spot) :
    tree.readText path = tree'.readText path := by
  have located : tree.locate? path = tree'.locate? path := by
    rw [locate?, locate?, agree.follow? elsewhere]
  rw [readText_eq, readText_eq, ← located]
  cases found : tree.locate? path with
  | none => rfl
  | some place =>
    rw [← (locate?_eq_some proper found).1] at elsewhere
    rw [Option.bind_some, Option.bind_some, agree.same place elsewhere]

theorem readText_congr {tree tree' : FileTree} (same : ∀ place, tree.look place = tree'.look place)
    (path : Path) : tree.readText path = tree'.readText path := by
  have followed : ∀ steps place, tree.follow? place steps = tree'.follow? place steps := by
    intro steps
    induction steps with
    | nil => exact fun place => rfl
    | cons step rest ih =>
      intro place
      rw [follow?_cons, follow?_cons, same, same, ih]
  rw [readText_eq, readText_eq, locate?, locate?, followed, funext same]

theorem readText_cases {tree : FileTree} {path : Path} {text? : Option String}
    (proper : tree.Proper) (read : tree.readText path = .ok text?) :
    (text? = none ∧ tree.locate? path = none) ∨
      ∃ text, text? = some text ∧ tree.locate? path = some path.place ∧
        tree.look path.place = some (.file (some text)) := by
  rw [readText_eq] at read
  cases found : tree.locate? path with
  | none =>
    rw [found] at read
    cases read
    exact .inl ⟨rfl, rfl⟩
  | some place =>
    obtain ⟨rfl, present⟩ := locate?_eq_some proper found
    rw [found, Option.bind_some] at read
    split at read
    · next absent => exact absurd absent present
    · next text file =>
      cases read
      exact .inr ⟨text, rfl, rfl, file⟩
    · cases read

theorem readText_of_absent {tree : FileTree} {path : Path} (proper : tree.Proper)
    (absent : tree.look path.place = none) : tree.readText path = .ok none := by
  rw [readText_eq]
  cases found : tree.locate? path with
  | none => rfl
  | some place =>
    obtain ⟨rfl, present⟩ := locate?_eq_some proper found
    exact absurd absent present

theorem follow?_mono {tree tree' : FileTree}
    (more : ∀ place, tree.look place ≠ none → tree'.look place = tree.look place)
    {place final : Place} {steps : List Step} (found : tree.follow? place steps = some final) :
    tree'.follow? place steps = some final := by
  induction steps generalizing place with
  | nil => exact found
  | cons step rest ih =>
    rw [follow?_cons] at found ⊢
    split at found
    · next entered =>
      have here := more place (by simp [entered.1])
      have next := more (step.move place) entered.2
      rw [if_pos ⟨here.trans entered.1, next ▸ entered.2⟩]
      exact ih found
    · cases found

theorem readText_mono {tree tree' : FileTree} (proper : tree.Proper)
    (more : ∀ place, tree.look place ≠ none → tree'.look place = tree.look place) {path : Path}
    {text : String} (read : tree.readText path = .ok (some text)) :
    tree'.readText path = .ok (some text) := by
  rcases readText_cases proper read with ⟨none, -⟩ | ⟨other, same, located, file⟩
  · cases none
  · cases same
    obtain ⟨usable, followed⟩ := locate?_eq_some_iff.1 located
    apply readText_of_located (locate?_eq_some_iff.2 ⟨usable, follow?_mono more followed⟩)
    rw [more _ (by simp [file]), file]

end FileTree

end Roadmap
