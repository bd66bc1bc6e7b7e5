import Mathlib

namespace Roadmap.Decimal

open Float.Model

/-- The side of zero that a number lies on, then its exponent and its mantissa. -/
abbrev Rank := WithBot (ℤ ×ₗ ℤ ×ₗ ℤ)

namespace Rank

def of (side exponent mantissa : ℤ) : Rank := ↑(toLex (side, toLex (exponent, mantissa)))

@[simp] theorem of_ne_bot {side exponent mantissa : ℤ} : of side exponent mantissa ≠ ⊥ :=
  WithBot.coe_ne_bot

@[simp] theorem of_lt_of {side exponent mantissa side' exponent' mantissa' : ℤ} :
    of side exponent mantissa < of side' exponent' mantissa' ↔
      side < side' ∨ side = side' ∧
        (exponent < exponent' ∨ exponent = exponent' ∧ mantissa < mantissa') := by
  simp [of, Prod.Lex.toLex_lt_toLex]

@[simp] theorem of_inj {side exponent mantissa side' exponent' mantissa' : ℤ} :
    of side exponent mantissa = of side' exponent' mantissa' ↔
      side = side' ∧ exponent = exponent' ∧ mantissa = mantissa' := by
  simp [of]

/-- Of negative numbers the one with the greater exponent or mantissa is the lesser. -/
def ofUnpacked : UnpackedFloat → Rank
  | .notANumber => ⊥
  | .infinity .negative => of (-2) 0 0
  | .finite .negative mantissa exponent _ => of (-1) (-exponent) (-mantissa)
  | .zero _ => of 0 0 0
  | .finite .positive mantissa exponent _ => of 1 exponent mantissa
  | .infinity .positive => of 2 0 0

theorem compare_sign (s t : UnpackedFloat.Sign) :
    compare s t = compare (s.apply 1) (t.apply 1) := by
  cases s <;> cases t <;> rfl

theorem compare_eq_lt_iff {a b : UnpackedFloat} :
    a.compare b = some .lt ↔ ofUnpacked a ≠ ⊥ ∧ ofUnpacked a < ofUnpacked b := by
  -- By the classes of both: infinite, no number, zero and finite, with their signs.
  rcases a with ⟨_ | _⟩ | _ | ⟨_ | _⟩ | ⟨_ | _⟩ <;>
    rcases b with ⟨_ | _⟩ | _ | ⟨_ | _⟩ | ⟨_ | _⟩ <;>
    simp [UnpackedFloat.compare, ofUnpacked, compare_sign, UnpackedFloat.Sign.apply,
      compare_lt_iff_lt, compare_gt_iff_gt, Ordering.then_eq_lt, Ordering.then_eq_gt]

theorem compare_eq_eq_iff {a b : UnpackedFloat} :
    a.compare b = some .eq ↔ ofUnpacked a ≠ ⊥ ∧ ofUnpacked a = ofUnpacked b := by
  rcases a with ⟨_ | _⟩ | _ | ⟨_ | _⟩ | ⟨_ | _⟩ <;>
    rcases b with ⟨_ | _⟩ | _ | ⟨_ | _⟩ | ⟨_ | _⟩ <;>
    simp [UnpackedFloat.compare, ofUnpacked, compare_sign, UnpackedFloat.Sign.apply,
      Ordering.then_eq_eq]

end Rank

def rank (x : Float) : Rank := .ofUnpacked x.toModel.unpack

variable {x y : Float}

theorem rank_eq_bot_iff : rank x = ⊥ ↔ x.isNaN = true := by
  change Rank.ofUnpacked x.toModel.unpack = ⊥ ↔ x.toModel.unpack.isNaN = true
  rcases x.toModel.unpack with ⟨_ | _⟩ | _ | ⟨_ | _⟩ | ⟨_ | _⟩ <;>
    simp [Rank.ofUnpacked, UnpackedFloat.isNaN]

theorem rank_zero_ne_bot : rank 0 ≠ ⊥ := by
  rw [ne_eq, rank_eq_bot_iff]
  decide

theorem lt_iff_rank : x < y ↔ rank x ≠ ⊥ ∧ rank x < rank y := by
  have compares : x < y ↔ x.toModel.unpack.compare y.toModel.unpack = some .lt := by
    change decide (x.toModel < y.toModel) = true ↔ _
    rw [decide_eq_true_iff]
    exact beq_iff_eq
  rw [compares, Rank.compare_eq_lt_iff]
  rfl

theorem le_iff_rank : x ≤ y ↔ rank x ≠ ⊥ ∧ rank x ≤ rank y := by
  have compares : x ≤ y ↔ x.toModel.unpack.compare y.toModel.unpack = some .lt ∨
      x.toModel.unpack.compare y.toModel.unpack = some .eq := by
    change decide (x.toModel ≤ y.toModel) = true ↔ _
    rw [decide_eq_true_iff]
    change (x.toModel.unpack.compare y.toModel.unpack).any (·.isLE) = true ↔ _
    cases x.toModel.unpack.compare y.toModel.unpack with
    | none => simp
    | some order => cases order <;> simp [Ordering.isLE]
  rw [compares, Rank.compare_eq_lt_iff, Rank.compare_eq_eq_iff, ← and_or_left, ← le_iff_lt_or_eq]
  rfl

theorem lt_of_lt_of_rank_le {z : Float} (less : x < y) (le : rank y ≤ rank z) : x < z := by
  obtain ⟨number, before⟩ := lt_iff_rank.1 less
  exact lt_iff_rank.2 ⟨number, lt_of_lt_of_le before le⟩

theorem le_of_le_of_rank_le {z : Float} (least : x ≤ y) (le : rank y ≤ rank z) : x ≤ z := by
  obtain ⟨number, before⟩ := le_iff_rank.1 least
  exact le_iff_rank.2 ⟨number, le_trans before le⟩

theorem rank_greater (number : rank x ≠ ⊥) :
    rank (if x < y then y else x) = max (rank x) (rank y) := by
  split
  · next less => exact (max_eq_right_of_lt (lt_iff_rank.1 less).2).symm
  · next other =>
    have most : rank y ≤ rank x := not_lt.1 fun less => other (lt_iff_rank.2 ⟨number, less⟩)
    exact (max_eq_left most).symm

theorem foldl_greater (values : List Float) {start : Float} (number : rank start ≠ ⊥) :
    let top := values.foldl (fun greatest value => if greatest < value then value else greatest)
      start
    (top = start ∨ top ∈ values) ∧ rank start ≤ rank top ∧
      ∀ value ∈ values, rank value ≤ rank top := by
  induction values generalizing start with
  | nil => simp
  | cons value values ih =>
    have wider := rank_greater (y := value) number
    have number' : rank (if start < value then value else start) ≠ ⊥ := by
      rw [wider]
      exact ne_bot_of_le_ne_bot number (le_max_left _ _)
    obtain ⟨among, least, below⟩ := ih number'
    rw [wider, max_le_iff] at least
    refine ⟨?_, least.1, fun other member => ?_⟩
    · rcases among with same | later
      · rw [List.foldl_cons, same]
        split <;> simp
      · exact .inr (List.mem_cons_of_mem _ later)
    · rcases List.mem_cons.1 member with rfl | later
      · exact least.2
      · exact below other later

end Roadmap.Decimal
