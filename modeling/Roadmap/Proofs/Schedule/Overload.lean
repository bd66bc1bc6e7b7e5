import Roadmap.Proofs.Decimal.Order
import Roadmap.Proofs.Schedule.Axis
import Roadmap.Proofs.Schedule.Rows
import Roadmap.Proofs.Schedule.Workload

namespace Roadmap

open Calendar Decimal

namespace LoadLevel

def degree : LoadLevel → Nat
  | idle => 0
  | light => 1
  | healthy => 2
  | overloaded => 3

theorem degree_injective : Function.Injective degree := by
  intro a b same
  cases a <;> cases b <;> simp_all [degree]

instance : PartialOrder LoadLevel := .lift degree degree_injective

theorem le_iff {a b : LoadLevel} : a ≤ b ↔ a.degree ≤ b.degree := Iff.rfl

theorem idle_le (level : LoadLevel) : idle ≤ level := Nat.zero_le level.degree

theorem le_overloaded (level : LoadLevel) : level ≤ overloaded := by
  rw [le_iff]
  cases level <;> decide

/-- A threshold that is passed stays passed as the rank grows, so levels grow with ranks. -/
theorem ofLoad_le_ofLoad {x y : Float} (le : rank x ≤ rank y) : ofLoad x ≤ ofLoad y := by
  have much : 1.1 < x → 1.1 < y := fun less => lt_of_lt_of_rank_le less le
  have enough : 0.5 ≤ x → 0.5 ≤ y := fun least => le_of_le_of_rank_le least le
  have any : 0 < x → 0 < y := fun less => lt_of_lt_of_rank_le less le
  rw [le_iff]
  unfold ofLoad
  split_ifs <;> simp_all [degree]

theorem ofLoad_zero : ofLoad 0 = idle := by decide

end LoadLevel

namespace PersonLoad

open LoadLevel

variable (p : PersonLoad)

theorem peak_bounds :
    (p.peak = 0 ∨ p.peak ∈ p.monthly) ∧ rank 0 ≤ rank p.peak ∧
      ∀ load ∈ p.monthly, rank load ≤ rank p.peak :=
  foldl_greater p.monthly rank_zero_ne_bot

theorem ofLoad_peak_of_nil {p : PersonLoad} (empty : p.monthly = []) :
    ofLoad p.peak = .idle := by
  rw [peak, empty, List.foldl_nil, ofLoad_zero]

theorem level_le_peak (index : Nat) : p.level index ≤ ofLoad p.peak := by
  obtain ⟨-, least, below⟩ := p.peak_bounds
  apply ofLoad_le_ofLoad
  cases found : p.monthly[index]? with
  | none => exact least
  | some load => exact below load (List.mem_of_getElem? found)

theorem exists_level_eq_peak (nonempty : p.monthly ≠ []) :
    ∃ index < p.monthly.length, p.level index = ofLoad p.peak := by
  rcases p.peak_bounds.1 with zero | among
  · -- The peak is the zero to start from, so no month is above idle.
    have idle : ofLoad p.peak = .idle := by rw [zero, ofLoad_zero]
    refine ⟨0, List.length_pos_of_ne_nil nonempty, ?_⟩
    exact le_antisymm (p.level_le_peak 0) (idle ▸ idle_le _)
  · obtain ⟨index, found⟩ := List.mem_iff_getElem?.1 among
    obtain ⟨inside, -⟩ := List.getElem?_eq_some_iff.1 found
    exact ⟨index, inside, by rw [level, found, Option.getD_some]⟩

theorem isGreatest_peak (nonempty : p.monthly ≠ []) :
    IsGreatest {level | ∃ index < p.monthly.length, p.level index = level} (ofLoad p.peak) := by
  refine ⟨p.exists_level_eq_peak nonempty, ?_⟩
  rintro level ⟨index, -, rfl⟩
  exact p.level_le_peak index

end PersonLoad

theorem map_filter_eq_map_range {α β : Type} {l : List α} {keep : α → Bool} {keepAt : Nat → Bool}
    {f : α → β} {g : Nat → β}
    (same : ∀ index a, l[index]? = some a → keep a = keepAt index ∧ f a = g index) :
    (l.filter keep).map f = ((List.range l.length).filter keepAt).map g := by
  have entries : l.zipIdx.map Prod.fst = l := List.zipIdx_map_fst 0 l
  have indices : l.zipIdx.map Prod.snd = List.range l.length := by
    rw [List.zipIdx_map_snd, List.range_eq_range']
  rw [← indices]
  conv_lhs => rw [← entries]
  rw [List.filter_map, List.filter_map, List.map_map, List.map_map]
  have kept : l.zipIdx.filter (keep ∘ Prod.fst) = l.zipIdx.filter (keepAt ∘ Prod.snd) :=
    List.filter_congr fun entry member =>
      (same entry.2 entry.1 (List.mem_zipIdx_iff_getElem?.1 member)).1
  rw [kept]
  refine List.map_congr_left fun entry member => ?_
  exact (same entry.2 entry.1
    (List.mem_zipIdx_iff_getElem?.1 (List.mem_of_mem_filter member))).2

namespace Workload

variable {w : Workload}

def cell? (w : Workload) (person month : Nat) : Option (String × MonthSlot × Float) := do
  let p ← w.persons[person]?
  return (p.person, ← w.months[month]?, ← p.monthly[month]?)

theorem cell?_eq_some_iff {j i : Nat} {name : String} {slot : MonthSlot} {load : Float} :
    w.cell? j i = some (name, slot, load) ↔
      ∃ p, w.persons[j]? = some p ∧ p.person = name ∧ w.months[i]? = some slot ∧
        p.monthly[i]? = some load := by
  simp only [cell?, Option.bind_eq_bind, Option.bind_eq_some_iff, Option.pure_def,
    Option.some.injEq, Prod.mk.injEq]
  grind

def crowded (w : Workload) : List (Nat × Nat) :=
  w.persons.zipIdx.flatMap fun (p, j) =>
    ((List.range w.months.length).filter fun i => p.level i = .overloaded).map fun i => (j, i)

theorem mem_crowded {j i : Nat} :
    (j, i) ∈ w.crowded ↔
      ∃ p, w.persons[j]? = some p ∧ i < w.months.length ∧ p.level i = .overloaded := by
  simp [crowded, List.mem_zipIdx_iff_getElem?]

theorem pairwise_crowded :
    w.crowded.Pairwise fun a b => a.1 < b.1 ∨ a.1 = b.1 ∧ a.2 < b.2 := by
  have persons : w.persons.zipIdx.Pairwise fun a b => a.2 < b.2 := by
    rw [← List.pairwise_map, List.zipIdx_map_snd, ← List.range_eq_range']
    exact List.pairwise_lt_range
  rw [crowded, List.pairwise_flatMap]
  constructor
  · rintro ⟨p, j⟩ -
    rw [List.pairwise_map]
    exact (List.pairwise_lt_range.filter _).imp fun less => .inr ⟨rfl, less⟩
  · refine persons.imp fun less a here b there => .inl ?_
    obtain ⟨_, -, rfl⟩ := List.mem_map.1 here
    obtain ⟨_, -, rfl⟩ := List.mem_map.1 there
    exact less

section

variable (aligned : ∀ p ∈ w.persons, p.monthly.length = w.months.length)

include aligned

theorem map_some_overloaded :
    w.overloaded.map some = w.crowded.map fun (j, i) => w.cell? j i := by
  -- Person by person; the zip of loads and months loses nothing, for it is as long as the axis.
  rw [overloaded, crowded, List.map_flatMap, List.map_flatMap]
  conv_lhs => rw [← List.zipIdx_map_fst 0 w.persons, List.flatMap_map]
  refine List.flatMap_congr fun entry member => ?_
  have person : w.persons[entry.2]? = some entry.1 := List.mem_zipIdx_iff_getElem?.1 member
  have length : (entry.1.monthly.zip w.months).length = w.months.length := by
    rw [List.length_zip, aligned _ (List.mem_of_getElem? person), Nat.min_self]
  rw [List.map_map, List.map_map, ← length]
  refine map_filter_eq_map_range fun i cell found => ?_
  obtain ⟨load, slot⟩ := List.getElem?_zip_eq_some.1 found
  simp [PersonLoad.level, cell?, person, load, slot]

theorem mem_overloaded_iff {cell : String × MonthSlot × Float} :
    cell ∈ w.overloaded ↔ ∃ j i, (j, i) ∈ w.crowded ∧ w.cell? j i = some cell := by
  have listed := congrArg (some cell ∈ ·) (map_some_overloaded aligned)
  simpa using listed

theorem nodup_overloaded (names : (w.persons.map PersonLoad.person).Nodup)
    (slots : w.months.Nodup) : w.overloaded.Nodup := by
  apply List.Nodup.of_map some
  rw [map_some_overloaded aligned, List.Nodup, List.pairwise_map]
  -- Two places with one cell would be one place, but places are told apart by their order.
  refine pairwise_crowded.imp_of_mem fun {a b} here there less same => ?_
  have filled : w.cell? a.1 a.2 ∈ w.overloaded.map some := by
    rw [map_some_overloaded aligned]
    exact List.mem_map.2 ⟨a, here, rfl⟩
  obtain ⟨⟨name, slot, load⟩, -, found⟩ := List.mem_map.1 filled
  obtain ⟨p, person, rfl, month, -⟩ := cell?_eq_some_iff.1 found.symm
  obtain ⟨q, person', name, month', -⟩ := cell?_eq_some_iff.1 (same.symm.trans found.symm)
  have first : a.1 = b.1 := by
    have inside : a.1 < (w.persons.map PersonLoad.person).length := by
      rw [List.length_map]
      exact (List.getElem?_eq_some_iff.1 person).1
    rw [← List.getElem?_inj inside names, List.getElem?_map, List.getElem?_map, person, person',
      Option.map_some, Option.map_some, name]
  have second : a.2 = b.2 :=
    (List.getElem?_inj (List.getElem?_eq_some_iff.1 month).1 slots).1 (month.trans month'.symm)
  omega

theorem exists_cell_iff (names : (w.persons.map PersonLoad.person).Nodup) {p : PersonLoad}
    (member : p ∈ w.persons) :
    (∃ slot load, (p.person, slot, load) ∈ w.overloaded) ↔
      LoadLevel.ofLoad p.peak = .overloaded := by
  simp only [mem_overloaded_iff aligned, cell?_eq_some_iff, mem_crowded]
  constructor
  · rintro ⟨slot, load, j, i, ⟨q, there, -, much⟩, q', there', name, -, -⟩
    obtain rfl := Option.some.inj (there.symm.trans there')
    obtain rfl := List.inj_on_of_nodup_map names member (List.mem_of_getElem? there) name.symm
    exact le_antisymm (LoadLevel.le_overloaded _) (much ▸ p.level_le_peak i)
  · intro much
    have nonempty : p.monthly ≠ [] := by
      intro empty
      rw [PersonLoad.ofLoad_peak_of_nil empty] at much
      cases much
    obtain ⟨i, inside, same⟩ := p.exists_level_eq_peak nonempty
    obtain ⟨j, there⟩ := List.mem_iff_getElem?.1 member
    have short : i < w.months.length := aligned p member ▸ inside
    exact ⟨w.months[i], p.monthly[i], j, i, ⟨p, there, short, same.trans much⟩, p, there, rfl,
      List.getElem?_eq_getElem short, List.getElem?_eq_getElem inside⟩

end

structure LevelsAgree (w : Workload) : Prop where
  peak : ∀ p ∈ w.persons, 0 ≤ p.peak ∧ (p.peak = 0 ∨ p.peak ∈ p.monthly) ∧
    ∀ load ∈ p.monthly, ¬ p.peak < load
  idle : w.months = [] → ∀ p ∈ w.persons, LoadLevel.ofLoad p.peak = .idle
  highest : w.months ≠ [] → ∀ p ∈ w.persons,
    IsGreatest {level | ∃ i < w.months.length, p.level i = level} (LoadLevel.ofLoad p.peak)
  listed : ∃ places : List (Nat × Nat),
    places.Pairwise (fun a b => a.1 < b.1 ∨ a.1 = b.1 ∧ a.2 < b.2) ∧
      (∀ j i, (j, i) ∈ places ↔
        ∃ p, w.persons[j]? = some p ∧ i < w.months.length ∧ p.level i = .overloaded) ∧
      w.overloaded.map some = places.map fun (j, i) => w.cell? j i
  once : w.overloaded.Nodup
  appears_iff : ∀ p ∈ w.persons, (∃ slot load, (p.person, slot, load) ∈ w.overloaded) ↔
    LoadLevel.ofLoad p.peak = .overloaded

theorem length_monthly {s : Schedule} (start : s.window.start.Supported)
    (finish : s.window.finish.Supported) {p : PersonLoad} (member : p ∈ (ofSchedule s).persons) :
    p.monthly.length = (ofSchedule s).months.length := by
  rw [monthly_ofSchedule start finish member, List.length_map]
  rfl

/-- However odd the loads are, a person's peak has the highest level of all months, and the list of
what is too much holds each month of that level once, in order and under its own slot. -/
theorem levelsAgree_ofSchedule (projects : List Project) {today : Day}
    (supported : today.Supported) :
    (ofSchedule (.ofProjects projects today)).LevelsAgree := by
  obtain ⟨start, finish⟩ := Schedule.supported_window projects supported
  have aligned : ∀ p ∈ (ofSchedule (.ofProjects projects today)).persons,
      p.monthly.length = (ofSchedule (.ofProjects projects today)).months.length :=
    fun p member => length_monthly start finish member
  have names : ((ofSchedule (.ofProjects projects today)).persons.map PersonLoad.person).Nodup := by
    rw [map_person_ofSchedule]
    exact nodup_personNames projects
  constructor
  case peak =>
    intro p _
    obtain ⟨among, least, below⟩ := p.peak_bounds
    refine ⟨le_iff_rank.2 ⟨rank_zero_ne_bot, least⟩, among, fun load member less => ?_⟩
    exact (lt_iff_rank.1 less).2.not_ge (below load member)
  case idle =>
    intro none p member
    apply PersonLoad.ofLoad_peak_of_nil
    rw [← List.length_eq_zero_iff, aligned p member, none, List.length_nil]
  case highest =>
    intro some p member
    rw [← aligned p member]
    apply p.isGreatest_peak
    rwa [ne_eq, ← List.length_eq_zero_iff, aligned p member, List.length_eq_zero_iff]
  case listed =>
    exact ⟨_, pairwise_crowded, fun j i => mem_crowded, map_some_overloaded aligned⟩
  case once => exact nodup_overloaded aligned names (Window.nodup_labels _).of_map
  case appears_iff => exact fun p member => exists_cell_iff aligned names member

def odd : List Project :=
  [⟨"Web", [⟨"Design", some ⟨"2025-01"⟩, ⟨"2025-02"⟩, [⟨"Ann", 0 / 0⟩, ⟨"Bo", -1⟩]⟩,
    ⟨"Build", some ⟨"2025-02"⟩, ⟨"2025-03"⟩, [⟨"Ann", 1.5⟩, ⟨"Bo", 1 / 0⟩]⟩]⟩]

/-- A phase that ends so long before it starts that no month is left to show. -/
def inverted : List Project :=
  [⟨"Web", [⟨"Design", some ⟨"2025-12"⟩, ⟨"2025-01"⟩, [⟨"Ann", 2⟩]⟩]⟩]

theorem levelsAgree_odd :
    (Month.ofYear 2026 1).first.Supported ∧
      (ofSchedule (.ofProjects odd (Month.ofYear 2026 1).first)).LevelsAgree ∧
      (ofSchedule (.ofProjects odd (Month.ofYear 2026 1).first)).overloaded.map
          (fun (name, slot, _) => (name, slot.label)) =
        [("Ann", "2025-03"), ("Bo", "2025-02"), ("Bo", "2025-03")] ∧
      (ofSchedule (.ofProjects inverted (Month.ofYear 2026 1).first)).LevelsAgree ∧
      (ofSchedule (.ofProjects inverted (Month.ofYear 2026 1).first)).months = [] := by
  have supported : (Month.ofYear 2026 1).first.Supported := by decide
  exact ⟨supported, levelsAgree_ofSchedule odd supported, by decide +kernel,
    levelsAgree_ofSchedule inverted supported, by decide +kernel⟩

end Workload

end Roadmap
