import Roadmap.Proofs.Header.UniqueName
import Roadmap.Proofs.Workspace.Current

namespace Roadmap

theorem modify_findIdx_append {α : Type} {p : α → Bool} {before : List α} {item : α}
    (others : ∀ other ∈ before, p other = false) (here : p item = true) (after : List α)
    (change : α → α) :
    (before ++ item :: after).modify ((before ++ item :: after).findIdx p) change =
      before ++ change item :: after := by
  induction before with
  | nil => simp [List.findIdx_cons, here]
  | cons first before ih =>
    obtain ⟨other, later⟩ := List.forall_mem_cons.1 others
    simp [List.findIdx_cons, other, ih later]

namespace Collection

variable {c : Collection}

/-- The first workspace of a name holds the document, under the identity it has; it is current, and
all others are as they were. -/
structure Overwrites (c : Collection) (name : String) (document : Document) (time : Timestamp)
    (id : Identity) (c' : Collection) : Prop where
  ids : c'.ids = c.ids
  currentId : c'.currentId = id
  workspaces : ∃ before first after, c.workspaces = before ++ first :: after ∧
    first.id = id ∧ first.name = name ∧ (∀ w ∈ before, w.name ≠ name) ∧
    c'.workspaces =
      before ++ ⟨id, document.header.getD (.named name), document.content, time⟩ :: after
  current : c'.current? =
    some ⟨id, document.header.getD (.named name), document.content, time⟩
  config : c'.config = c.config

structure Appends (c : Collection) (name : String) (document : Document) (stamp : Stamp)
    (c' : Collection) : Prop where
  new : stamp.id ∉ c.ids
  currentId : c'.currentId = stamp.id
  workspaces : c'.workspaces =
    c.workspaces ++ [⟨stamp.id, { document.header.getD (.named "") with name := name },
      document.content, stamp.time⟩]
  current : c'.current? =
    some ⟨stamp.id, { document.header.getD (.named "") with name := name }, document.content,
      stamp.time⟩
  config : c'.config = c.config

theorem overwrites_overwrite (distinct : c.ids.Nodup) {name : String} {existing : Workspace}
    (found : c.workspaces.find? (·.name = name) = some existing) (document : Document)
    (time : Timestamp) :
    c.Overwrites name document time existing.id (c.overwrite existing name document time) := by
  obtain ⟨here, before, after, whole, others⟩ := List.find?_eq_some_iff_append.1 found
  have places : (c.overwrite existing name document time).workspaces =
      before ++ ⟨existing.id, document.header.getD (.named name), document.content, time⟩ ::
        after := by
    rw [overwrite, whole]
    exact modify_findIdx_append (p := fun w => decide (w.name = name)) (by simpa using others)
      here after _
  constructor
  case ids => exact ids_overwrite c existing name document time
  case currentId => rfl
  case workspaces =>
    exact ⟨before, existing, after, whole, rfl, by simpa using here, by simpa using others, places⟩
  case current =>
    have still : (c.overwrite existing name document time).ids.Nodup := by rwa [ids_overwrite]
    exact current?_of_mem still (by simp [places]) rfl
  case config => rfl

theorem appends_addDocument (distinct : c.ids.Nodup) {stamp : Stamp} (fresh : stamp.id ∉ c.ids)
    (name : String) (document : Document) :
    c.Appends name document stamp (c.addDocument name document stamp) := by
  constructor
  case new => exact fresh
  case currentId => rfl
  case workspaces => rfl
  case current =>
    have still : (c.addDocument name document stamp).ids.Nodup := by
      rw [addDocument, ids_add, ← List.concat_eq_append]
      exact distinct.concat fresh
    exact current?_of_mem still (List.mem_append_right _ List.mem_cons_self) rfl
  case config => rfl

/-- The name under which a document becomes one more workspace: its own, if it is free or none is
asked for, and otherwise its own with the least number that makes it free. -/
def Chosen (c : Collection) (resolution : Option Resolution) (name final : String) : Prop :=
  if resolution = some .rename ∧ name ∈ c.names then
    ∃ n, final = numbered name (n + 1) ∧ final ∉ c.names ∧ ∀ m < n, numbered name (m + 1) ∈ c.names
  else final = name

theorem chosen_uniqueName {name : String} (taken : name ∈ c.names) :
    c.Chosen (some .rename) name (uniqueName name c.names) := by
  rw [Chosen, if_pos ⟨rfl, taken⟩]
  obtain ⟨n, same, free, least⟩ := uniqueName_of_mem taken
  exact ⟨n, same, same ▸ free, least⟩

theorem chosen_self {name : String} (free : name ∉ c.names) (resolution : Option Resolution) :
    c.Chosen resolution name name := by
  rw [Chosen, if_neg fun both => free both.2]

structure Decided (c : Collection) (document : Document) (name : String)
    (resolution : Option Resolution) (stamp : Stamp) (c' : Collection) (outcome : ImportOutcome) :
    Prop where
  conflict : outcome = .conflict name ↔ resolution = none ∧ name ∈ c.names
  conflicting : ∀ other, outcome = .conflict other → other = name
  cancelled : outcome = .cancelled ↔ resolution = some .cancel
  imported : (∃ id, outcome = .imported id) ↔
    resolution ≠ some .cancel ∧ ¬ (resolution = none ∧ name ∈ c.names)
  unchanged : (∀ id, outcome ≠ .imported id) → c' = c
  changed : ∀ id, outcome = .imported id → c'.currentId = id ∧
    if resolution = some .overwrite ∧ name ∈ c.names then
      c.Overwrites name document stamp.time id c'
    else
      id = stamp.id ∧ ∃ final, c.Chosen resolution name final ∧ c.Appends final document stamp c'

section

variable {document : Document} {name : String} {resolution : Option Resolution} {stamp : Stamp}

theorem decided_conflict (taken : name ∈ c.names) :
    c.Decided document name none stamp c (.conflict name) where
  conflict := iff_of_true rfl ⟨rfl, taken⟩
  conflicting _ same := (ImportOutcome.conflict.inj same).symm
  cancelled := iff_of_false nofun nofun
  imported := iff_of_false nofun fun admitted => admitted.2 ⟨rfl, taken⟩
  unchanged _ := rfl
  changed := nofun

theorem decided_cancelled : c.Decided document name (some .cancel) stamp c .cancelled where
  conflict := iff_of_false nofun nofun
  conflicting := nofun
  cancelled := iff_of_true rfl rfl
  imported := iff_of_false nofun fun admitted => admitted.1 rfl
  unchanged _ := rfl
  changed := nofun

theorem Overwrites.decided {c' : Collection} {id : Identity} (taken : name ∈ c.names)
    (overwrites : c.Overwrites name document stamp.time id c') :
    c.Decided document name (some .overwrite) stamp c' (.imported id) where
  conflict := iff_of_false nofun nofun
  conflicting := nofun
  cancelled := iff_of_false nofun nofun
  imported := iff_of_true ⟨id, rfl⟩ ⟨nofun, nofun⟩
  unchanged refused := absurd rfl (refused id)
  changed other same := by
    cases same
    exact ⟨overwrites.currentId, by rwa [if_pos ⟨rfl, taken⟩]⟩

theorem Appends.decided {c' : Collection} {final : String} (going : resolution ≠ some .cancel)
    (settled : name ∈ c.names → resolution = some .rename)
    (chosen : c.Chosen resolution name final) (appends : c.Appends final document stamp c') :
    c.Decided document name resolution stamp c' (.imported stamp.id) where
  conflict := by
    refine iff_of_false nofun fun ⟨undecided, taken⟩ => ?_
    rw [settled taken] at undecided
    cases undecided
  conflicting := nofun
  cancelled := iff_of_false nofun going
  imported := by
    refine iff_of_true ⟨stamp.id, rfl⟩ ⟨going, fun ⟨undecided, taken⟩ => ?_⟩
    rw [settled taken] at undecided
    cases undecided
  unchanged refused := absurd rfl (refused stamp.id)
  changed other same := by
    cases same
    refine ⟨appends.currentId, ?_⟩
    rw [if_neg]
    · exact ⟨rfl, final, chosen, appends⟩
    · rintro ⟨overwrite, taken⟩
      rw [settled taken] at overwrite
      cases overwrite

end

/-- A shared document is taken in exactly as is decided. One that is to take the place of another is
added only where there is no other. -/
theorem decided_importShared (distinct : c.ids.Nodup) {stamp : Stamp} (fresh : stamp.id ∉ c.ids)
    (text : String) (resolution : Option Resolution) :
    c.Decided (.parse text) (c.incomingName (.parse text)) resolution stamp
      (c.importShared text resolution stamp).1 (c.importShared text resolution stamp).2 ∧
    (c.overwritten? (some .overwrite) (c.incomingName (.parse text)) = none ↔
      c.incomingName (.parse text) ∉ c.names) := by
  refine ⟨?_, overwritten?_eq_none_iff⟩
  by_cases cancel : resolution = some .cancel
  · rw [cancel, importShared_cancel]
    exact decided_cancelled
  by_cases taken : c.incomingName (.parse text) ∈ c.names
  · obtain ⟨existing, found⟩ := exists_found taken
    rw [importShared_of_taken found]
    rcases resolution with _ | _ | _ | _
    · exact decided_conflict taken
    · exact (overwrites_overwrite distinct found _ _).decided taken
    · exact (appends_addDocument distinct fresh _ _).decided nofun (fun _ => rfl)
        (chosen_uniqueName taken)
    · exact absurd rfl cancel
  · rw [importShared_of_free taken cancel]
    exact (appends_addDocument distinct fresh _ _).decided cancel (fun member => absurd member taken)
      (chosen_self taken resolution)

/-- The name of a document is taken twice, and the name with the least number once. -/
def lookalikes : Collection :=
  ⟨[.new (.named "B") "" (.newYear 1), .new (.named "A") "" (.newYear 2),
      .new (.named "A (1)") "" (.newYear 3), .new (.named "A") "" (.newYear 4)], .ofNat 1, .standard⟩

def handout : String := "name: A\nteam: 'x'\n---\nApp:"

theorem decided_lookalikes :
    lookalikes.ids.Nodup ∧ (Stamp.newYear 5).id ∉ lookalikes.ids ∧
      (lookalikes.importShared handout none (.newYear 5)).1 = lookalikes ∧
      lookalikes.Overwrites "A" (.parse handout) (Stamp.newYear 5).time (.ofNat 2)
        (lookalikes.importShared handout (some .overwrite) (.newYear 5)).1 ∧
      lookalikes.Appends "A (2)" (.parse handout) (.newYear 5)
        (lookalikes.importShared handout (some .rename) (.newYear 5)).1 := by
  have distinct : lookalikes.ids.Nodup := by decide
  have fresh : (Stamp.newYear 5).id ∉ lookalikes.ids := by decide
  have name : lookalikes.incomingName (.parse handout) = "A" := by decide +kernel
  have taken : "A" ∈ lookalikes.names := by decide
  have decided := fun resolution => (decided_importShared distinct fresh handout resolution).1
  rw [name] at decided
  refine ⟨distinct, fresh, ?_, ?_, ?_⟩
  · have conflict := (decided none).conflict.2 ⟨rfl, taken⟩
    exact (decided none).unchanged (by simp [conflict])
  · have changed := ((decided (some .overwrite)).changed (.ofNat 2) (by decide +kernel)).2
    rwa [if_pos ⟨rfl, taken⟩] at changed
  · have changed := ((decided (some .rename)).changed (.ofNat 5) (by decide +kernel)).2
    rw [if_neg (by simp)] at changed
    obtain ⟨-, final, chosen, appends⟩ := changed
    rw [Chosen, if_pos ⟨rfl, taken⟩] at chosen
    obtain ⟨n, rfl, free, least⟩ := chosen
    -- The second number is free, and so is none before it.
    have second : n = 1 := by
      have one : 1 ≤ n := by
        by_contra first
        obtain rfl : n = 0 := by omega
        exact free (by decide)
      by_contra later
      exact absurd (least 1 (by omega)) (by decide)
    rw [second] at appends
    exact appends

end Collection

end Roadmap
