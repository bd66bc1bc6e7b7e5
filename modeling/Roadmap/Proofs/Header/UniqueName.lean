import Mathlib.Algebra.Group.Nat.Defs
import Mathlib.Data.List.Perm.Subperm
import Mathlib.Data.List.Nodup
import Mathlib.Order.Bounds.Defs
import Roadmap.Header.Checked

namespace Roadmap

open Calendar

theorem numbered_injective (base : String) : Function.Injective (numbered base) := by
  have longer : ∀ n, base ≠ numbered base (n + 1) := by
    intro n same
    have length := congrArg String.length same
    have bracket : ")".length = 1 := rfl
    simp only [numbered, String.length_append, bracket] at length
    omega
  intro m n same
  cases m with
  | zero =>
    cases n with
    | zero => rfl
    | succ n => exact absurd same (longer n)
  | succ m =>
    cases n with
    | zero => exact absurd same.symm (longer m)
    | succ n =>
      have chars := congrArg String.toList same
      simp only [numbered, String.toList_append, List.append_assoc, List.append_cancel_left_eq,
        List.append_cancel_right_eq, Nat.toList_repr] at chars
      simpa using congrArg (fun digits => Nat.ofDigitChars 10 digits 0) chars

theorem le_length_of_taken {base : String} {existing : List String} {n : Nat}
    (taken : ∀ m < n, numbered base m ∈ existing) : n ≤ existing.length := by
  have all : (List.range n).map (numbered base) ⊆ existing := by
    intro name member
    obtain ⟨m, before, rfl⟩ := List.mem_map.1 member
    exact taken m (List.mem_range.1 before)
  have distinct : ((List.range n).map (numbered base)).Nodup :=
    List.nodup_range.map (numbered_injective base)
  have shorter := (List.subperm_of_subset distinct all).length_le
  rwa [List.length_map, List.length_range] at shorter

theorem exists_numbered_not_mem (base : String) (existing : List String) :
    ∃ n ≤ existing.length, numbered base n ∉ existing := by
  by_contra free
  have taken : ∀ n < existing.length + 1, numbered base n ∈ existing := by
    intro n before
    by_contra absent
    exact free ⟨n, Nat.lt_succ_iff.1 before, absent⟩
  exact absurd (le_length_of_taken taken) (Nat.not_succ_le_self _)

theorem uniqueName_eq_numbered (base : String) (existing : List String) :
    ∃ n, uniqueName base existing = numbered base n ∧ numbered base n ∉ existing ∧
      ∀ m < n, numbered base m ∈ existing := by
  unfold uniqueName
  rw [List.find?_map]
  cases found : (List.range (existing.length + 1)).find? ((· ∉ existing) ∘ numbered base) with
  | none =>
    obtain ⟨n, within, absent⟩ := exists_numbered_not_mem base existing
    have taken := List.find?_eq_none.1 found n (List.mem_range.2 (Nat.lt_succ_of_le within))
    simp [absent] at taken
  | some n =>
    obtain ⟨free, -, least⟩ := List.find?_range_eq_some.1 found
    exact ⟨n, rfl, by simpa using free, fun m before => by simpa using least m before⟩

theorem uniqueName_not_mem (base : String) (existing : List String) :
    uniqueName base existing ∉ existing := by
  obtain ⟨n, same, free, -⟩ := uniqueName_eq_numbered base existing
  rwa [same]

theorem uniqueName_of_mem {base : String} {existing : List String} (taken : base ∈ existing) :
    ∃ n, uniqueName base existing = numbered base (n + 1) ∧ numbered base (n + 1) ∉ existing ∧
      ∀ m < n, numbered base (m + 1) ∈ existing := by
  obtain ⟨n, same, free, least⟩ := uniqueName_eq_numbered base existing
  cases n with
  | zero => exact absurd taken free
  | succ n => exact ⟨n, same, free, fun m before => least (m + 1) (Nat.succ_lt_succ before)⟩

theorem holds_succ_iff {n : Nat} : IntType.int32.Holds (n + 1 : Nat) ↔ n < 2 ^ 31 - 1 := by
  simp only [IntType.Holds, IntType.least, IntType.greatest]
  omega

theorem checkedNumber_of_taken {base : String} {existing : List String} {first last : Nat}
    (within : first ≤ last) (taken : ∀ m, first ≤ m → m < last → numbered base m ∈ existing)
    (fits : last ≤ 2 ^ 31 - 1) :
    checkedNumber base existing first = checkedNumber base existing last := by
  induction distance : last - first generalizing first with
  | zero =>
    obtain rfl : first = last := by omega
    rfl
  | succ gap ih =>
    have holds : IntType.int32.Holds (first + 1 : Nat) := holds_succ_iff.2 (by omega)
    rw [checkedNumber, if_pos (taken first (Nat.le_refl _) (by omega)), if_pos holds]
    exact ih (by omega) (fun m later => taken m (by omega)) (by omega)

theorem checkedNumber_of_free {base : String} {existing : List String} {n : Nat}
    (free : numbered base n ∉ existing) (fits : n < 2 ^ 31 - 1) :
    checkedNumber base existing n = .ok n := by
  rw [checkedNumber, if_neg free, if_pos (holds_succ_iff.2 fits)]
  rfl

theorem checkedNumber_greatest (base : String) (existing : List String) :
    checkedNumber base existing (2 ^ 31 - 1) = .error .overflow := by
  have full : ¬ IntType.int32.Holds (2 ^ 31 - 1 + 1 : Nat) :=
    fun holds => Nat.lt_irrefl _ (holds_succ_iff.1 holds)
  rw [checkedNumber, if_neg full, if_neg full, ite_self]

structure Unused (base : String) (existing : List String) (name : String) : Prop where
  free : name ∉ existing
  own : name = base ↔ base ∉ existing
  least : base ∈ existing → ∃ n, name = numbered base n ∧ n ≤ existing.length ∧
    IsLeast {n | 1 ≤ n ∧ numbered base n ∉ existing} n

theorem unused_uniqueName (base : String) (existing : List String) :
    Unused base existing (uniqueName base existing) := by
  obtain ⟨n, same, free, taken⟩ := uniqueName_eq_numbered base existing
  rw [same]
  constructor
  case free => exact free
  case own =>
    constructor
    · intro own
      rwa [← own]
    · intro absent
      cases n with
      | zero => rfl
      | succ n => exact absurd (taken 0 n.succ_pos) absent
  case least =>
    intro exists_base
    have positive : 1 ≤ n := by
      by_contra zero
      rw [Nat.lt_one_iff.1 (Nat.lt_of_not_le zero)] at free
      exact free exists_base
    refine ⟨n, rfl, le_length_of_taken taken, ⟨positive, free⟩, fun m candidate => ?_⟩
    by_contra before
    exact candidate.2 (taken m (Nat.lt_of_not_le before))

theorem checkedName_of_free {base : String} {existing : List String} {n : Nat}
    (free : numbered base n ∉ existing) (fits : n < 2 ^ 31 - 1) :
    checkedName base existing = .ok (uniqueName base existing) := by
  obtain ⟨least, same, unused, taken⟩ := uniqueName_eq_numbered base existing
  have within : least ≤ n := by
    by_contra beyond
    exact free (taken n (Nat.lt_of_not_le beyond))
  rw [checkedName, same]
  cases least with
  | zero => exact if_neg unused
  | succ least =>
    have own : base ∈ existing := taken 0 least.succ_pos
    rw [if_pos own,
      checkedNumber_of_taken (Nat.le_add_left 1 least) (fun m _ => taken m) (by omega),
      checkedNumber_of_free unused (by omega)]
    rfl

/-- The greatest number is free at best, and on the way to it the counter overflows. -/
theorem checkedName_of_taken {base : String} {existing : List String}
    (taken : ∀ n < 2 ^ 31 - 1, numbered base n ∈ existing) :
    checkedName base existing = .error .overflow := by
  have own : base ∈ existing := taken 0 (by decide)
  rw [checkedName, if_pos own,
    checkedNumber_of_taken (by decide) (fun m _ => taken m) (Nat.le_refl _), checkedNumber_greatest]
  rfl

/-- The name that is found is unused and has the least number. A counter of 32 bits comes to the
same one if it can go on past the number of names that exist. -/
theorem unused_uniqueName_and_checked (base : String) (existing : List String) :
    Unused base existing (uniqueName base existing) ∧
      (existing.length < 2 ^ 31 - 1 →
        checkedName base existing = .ok (uniqueName base existing)) := by
  refine ⟨unused_uniqueName base existing, fun few => ?_⟩
  obtain ⟨n, within, free⟩ := exists_numbered_not_mem base existing
  exact checkedName_of_free free (Nat.lt_of_le_of_lt within few)

/-- Names with a gap and a repetition, the last of which looks numbered but is not. -/
def gapped : List String := ["A", "A (2)", "A (1)", "A", "A (4)", "A (03)"]

theorem unused_uniqueName_gapped :
    gapped.length < 2 ^ 31 - 1 ∧ uniqueName "A" gapped = "A (3)" ∧
      Unused "A" gapped (uniqueName "A" gapped) ∧
      checkedName "A" gapped = .ok (uniqueName "A" gapped) :=
  have few : gapped.length < 2 ^ 31 - 1 := by decide
  have found := unused_uniqueName_and_checked "A" gapped
  ⟨few, by decide +kernel, found.1, found.2 few⟩

def dense (base : String) (count : Nat) : List String := (List.range count).map (numbered base)

theorem numbered_mem_dense {base : String} {count n : Nat} :
    numbered base n ∈ dense base count ↔ n < count := by
  simp [dense, (numbered_injective base).eq_iff]

theorem uniqueName_dense (base : String) (count : Nat) :
    uniqueName base (dense base count) = numbered base count := by
  obtain ⟨n, same, free, taken⟩ := uniqueName_eq_numbered base (dense base count)
  rw [numbered_mem_dense] at free
  have reached : n ≤ count := by
    by_contra beyond
    exact absurd (numbered_mem_dense.1 (taken count (Nat.lt_of_not_le beyond))) (Nat.lt_irrefl _)
  rw [same, Nat.le_antisymm reached (Nat.le_of_not_lt free)]

/-- Fewer names than `2 ^ 31`, and a free number that 32 bits hold, but the counter overflows. -/
theorem not_checked_dense :
    (dense "A" (2 ^ 31 - 1)).length < 2 ^ 31 ∧
      uniqueName "A" (dense "A" (2 ^ 31 - 1)) = numbered "A" (2 ^ 31 - 1) ∧
      IntType.int32.Holds (2 ^ 31 - 1 : Nat) ∧
      checkedName "A" (dense "A" (2 ^ 31 - 1)) = .error .overflow := by
  refine ⟨?_, uniqueName_dense "A" _, by decide, ?_⟩
  · rw [dense, List.length_map, List.length_range]
    decide
  · exact checkedName_of_taken fun n before => numbered_mem_dense.2 before

end Roadmap
