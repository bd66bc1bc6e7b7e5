import Mathlib.Data.List.TakeWhile
import Roadmap.Decimal.Layout
import Roadmap.Decimal.Text
import Roadmap.Proofs.Decimal.Bits

namespace Roadmap.Decimal

inductive Plain : List Char → Prop where
  | whole {digits : List Char} (nonempty : digits ≠ []) (digit : ∀ c ∈ digits, c.isDigit = true) :
      Plain digits
  | point {digits places : List Char} (nonempty : digits ≠ [])
      (digit : ∀ c ∈ digits, c.isDigit = true) (place : ∀ c ∈ places, c.isDigit = true) :
      Plain (digits ++ '.' :: places)

theorem Plain.nonempty {text : List Char} (plain : Plain text) : text ≠ [] := by
  cases plain with
  | whole nonempty digit => exact nonempty
  | point nonempty digit place => simp

theorem Plain.digit_or_point {text : List Char} (plain : Plain text) :
    ∀ c ∈ text, c.isDigit = true ∨ c = '.' := by
  intro c member
  cases plain with
  | whole nonempty digit => exact .inl (digit c member)
  | point nonempty digit place =>
    rcases List.mem_append.1 member with member | member
    · exact .inl (digit c member)
    · rcases List.mem_cons.1 member with same | member
      · exact .inr same
      · exact .inl (place c member)

theorem takeWhile_digits {digits : List Char} (digit : ∀ c ∈ digits, c.isDigit = true)
    {rest : List Char} (stop : ∀ c ∈ rest.head?, c.isDigit = false) :
    (digits ++ rest).takeWhile Char.isDigit = digits := by
  rw [List.takeWhile_append_of_pos digit]
  cases rest with
  | nil => simp
  | cons c rest => simp [stop c rfl]

theorem takeWhile_digits_point {digits : List Char} (digit : ∀ c ∈ digits, c.isDigit = true)
    (rest : List Char) : (digits ++ '.' :: rest).takeWhile Char.isDigit = digits :=
  takeWhile_digits digit (by simp)

theorem dropWhile_digits_point {digits : List Char} (digit : ∀ c ∈ digits, c.isDigit = true)
    (rest : List Char) : (digits ++ '.' :: rest).dropWhile Char.isDigit = '.' :: rest := by
  rw [List.dropWhile_append_of_pos digit, List.dropWhile_cons_of_neg (by decide)]

theorem digitsAndPoint?_whole {digits : List Char} (nonempty : digits ≠ [])
    (digit : ∀ c ∈ digits, c.isDigit = true) : digitsAndPoint? digits = some (digits, 0) := by
  have rest : digits.dropWhile Char.isDigit = [] := List.dropWhile_eq_nil_iff.2 digit
  simp [digitsAndPoint?, rest, List.takeWhile_eq_self_iff.2 digit, nonempty]

theorem digitsAndPoint?_point {digits places : List Char} (nonempty : digits ≠ [])
    (digit : ∀ c ∈ digits, c.isDigit = true) (place : ∀ c ∈ places, c.isDigit = true) :
    digitsAndPoint? (digits ++ '.' :: places) = some (digits ++ places, places.length) := by
  simp only [digitsAndPoint?, takeWhile_digits_point digit, dropWhile_digits_point digit]
  simp [nonempty, List.all_eq_true.2 place]

theorem ofDigits_eq (digits : List Char) : ofDigits digits = Nat.ofDigitChars 10 digits 0 := by
  rw [ofDigits, Nat.ofDigitChars_eq_foldl]

theorem ofDigits_cons (c : Char) (digits : List Char) :
    ofDigits (c :: digits) = 10 ^ digits.length * (c.toNat - '0'.toNat) + ofDigits digits := by
  rw [ofDigits_eq, ofDigits_eq, Nat.ofDigitChars_cons, Nat.ofDigitChars_eq_ofDigitChars_zero,
    Nat.mul_zero, Nat.zero_add]

theorem toNat_of_isDigit {c : Char} (digit : c.isDigit = true) :
    '0'.toNat ≤ c.toNat ∧ c.toNat - '0'.toNat < 10 := by
  simp only [Char.isDigit, Bool.and_eq_true, decide_eq_true_eq, ge_iff_le,
    UInt32.le_iff_toNat_le] at digit
  have lower : '0'.toNat ≤ c.toNat := digit.1
  have upper : c.toNat ≤ '9'.toNat := digit.2
  have zero : '0'.toNat = 48 := rfl
  have nine : '9'.toNat = 57 := rfl
  omega

theorem ofDigits_lt {digits : List Char} (digit : ∀ c ∈ digits, c.isDigit = true) :
    ofDigits digits < 10 ^ digits.length := by
  induction digits with
  | nil => decide
  | cons c digits ih =>
    have rest := ih fun c member => digit c (List.mem_cons_of_mem _ member)
    have first := (toNat_of_isDigit (digit c List.mem_cons_self)).2
    rw [ofDigits_cons, List.length_cons, Nat.pow_succ]
    calc 10 ^ digits.length * (c.toNat - '0'.toNat) + ofDigits digits
        < 10 ^ digits.length * (c.toNat - '0'.toNat + 1) := by
          rw [Nat.mul_succ]
          exact Nat.add_lt_add_left rest _
      _ ≤ 10 ^ digits.length * 10 := Nat.mul_le_mul_left _ first

theorem eq_of_ofDigits_eq {a b : List Char} (long : a.length = b.length)
    (digitA : ∀ c ∈ a, c.isDigit = true) (digitB : ∀ c ∈ b, c.isDigit = true)
    (same : ofDigits a = ofDigits b) : a = b := by
  induction a generalizing b with
  | nil => exact (List.length_eq_zero_iff.1 long.symm).symm
  | cons c a ih =>
    obtain ⟨d, b, rfl⟩ := List.exists_cons_of_length_eq_add_one long.symm
    simp only [List.mem_cons, forall_eq_or_imp] at digitA digitB
    have long : a.length = b.length := Nat.succ.inj long
    have lowA := ofDigits_lt digitA.2
    have lowB := ofDigits_lt digitB.2
    rw [ofDigits_cons, ofDigits_cons, long] at same
    rw [long] at lowA
    -- The rest is worth less than one of the first digit, so division gives the first.
    have firsts : c.toNat - '0'.toNat = d.toNat - '0'.toNat := by
      have quotient := congrArg (· / 10 ^ b.length) same
      simpa [Nat.mul_add_div, Nat.div_eq_of_lt lowA, Nat.div_eq_of_lt lowB] using quotient
    have rests : ofDigits a = ofDigits b := by
      rw [firsts] at same
      exact Nat.add_left_cancel same
    have heads : c = d := by
      have zeroC := (toNat_of_isDigit digitA.1).1
      have zeroD := (toNat_of_isDigit digitB.1).1
      exact Char.toNat_inj.1 (by omega)
    rw [heads, ih long digitA.2 digitB.2 rests]

theorem isDigit_toDigits {n : Nat} : ∀ c ∈ Nat.toDigits 10 n, c.isDigit = true :=
  fun _ member => Nat.isDigit_of_mem_toDigits (by decide) (by decide) member

theorem isDigit_zeros {count : Nat} : ∀ c ∈ List.replicate count '0', c.isDigit = true := by
  intro c member
  rw [List.eq_of_mem_replicate member]
  decide

structure Spells (text : List Char) (d : Scientific) : Prop where
  plain : Plain text
  reads : ∃ digits, digitsAndPoint? text = some (digits, (-d.exponent).toNat) ∧
    ofDigits digits = d.num

theorem spells_whole {d : Scientific} (whole : 0 ≤ d.exponent) : Spells (positional "" d) d := by
  have text : positional "" d =
      Nat.toDigits 10 d.digits ++ List.replicate d.exponent.toNat '0' := by
    simp [positional, whole]
  have nonempty : positional "" d ≠ [] := by simp [text, Nat.toDigits_ne_nil]
  have digit : ∀ c ∈ positional "" d, c.isDigit = true := by
    intro c member
    rw [text] at member
    rcases List.mem_append.1 member with member | member
    · exact isDigit_toDigits c member
    · exact isDigit_zeros c member
  have none : (-d.exponent).toNat = 0 := by omega
  refine ⟨.whole nonempty digit, positional "" d, ?_, ?_⟩
  · rw [none]; exact digitsAndPoint?_whole nonempty digit
  · rw [text, ofDigits_eq, Nat.ofDigitChars_append, Nat.ofDigitChars_ten_toDigits,
      Nat.ofDigitChars_replicate_zero, Nat.mul_comm]
    rfl

theorem spells_broken {d : Scientific} (broken : d.exponent < 0) :
    Spells (positional "" d) d := by
  -- Zeros in front leave a digit before the point, and the number is the same with them.
  let count := (-d.exponent).toNat
  let padded := List.replicate (count + 1 - (Nat.toDigits 10 d.digits).length) '0' ++
    Nat.toDigits 10 d.digits
  have long : count + 1 ≤ padded.length := by simp [padded]; omega
  have digit : ∀ c ∈ padded, c.isDigit = true := by
    intro c member
    rcases List.mem_append.1 member with member | member
    · exact isDigit_zeros c member
    · exact isDigit_toDigits c member
  have value : ofDigits padded = d.digits := by
    rw [ofDigits_eq, Nat.ofDigitChars_append, Nat.ofDigitChars_replicate_zero, Nat.mul_zero,
      Nat.ofDigitChars_ten_toDigits]
  have power : d.num = d.digits := by
    have none : d.exponent.toNat = 0 := by omega
    rw [Scientific.num, none, pow10_zero, Nat.mul_one]
  let front := padded.take (padded.length - count)
  let places := padded.drop (padded.length - count)
  have text : positional "" d = front ++ '.' :: places := by
    simp [positional, Int.not_le.2 broken, padded, front, places, count]
  have nonempty : front ≠ [] := by
    intro none
    have short := congrArg List.length none
    simp only [front, List.length_take, List.length_nil] at short
    omega
  have before : ∀ c ∈ front, c.isDigit = true :=
    fun c member => digit c (List.mem_of_mem_take member)
  have after : ∀ c ∈ places, c.isDigit = true :=
    fun c member => digit c (List.mem_of_mem_drop member)
  have places_length : places.length = count := by simp only [places, List.length_drop]; omega
  refine ⟨?_, front ++ places, ?_, ?_⟩
  · rw [text]; exact .point nonempty before after
  · rw [text, digitsAndPoint?_point nonempty before after, places_length]
  · rw [List.take_append_drop, value, power]

theorem spells_positional (d : Scientific) : Spells (positional "" d) d := by
  by_cases whole : 0 ≤ d.exponent
  · exact spells_whole whole
  · exact spells_broken (Int.not_le.1 whole)

theorem Spells.unsigned? {text : List Char} {d : Scientific} (spells : Spells text d) :
    unsigned? text = some (assemble false d.read) := by
  obtain ⟨digits, read, value⟩ := spells.reads
  simp only [Decimal.unsigned?, read, Option.map_some, value, Scientific.read, Scientific.den]

def IsPortion (x : Float) : Prop := isFinite x = true ∧ isNegative x = false

instance (x : Float) : Decidable (IsPortion x) := by unfold IsPortion; infer_instance

theorem IsPortion.isNumber {x : Float} (portion : IsPortion x) : isNumber x = true := by
  have finite := portion.1
  simp only [isFinite, Decimal.isNumber, decide_eq_true_eq] at finite ⊢
  omega

theorem IsPortion.write {x : Float} (portion : IsPortion x) :
    Layout.plain.write x = positional "" (shortest .up (pattern x)) := by
  simp [Layout.write, portion.isNumber, portion.1, portion.2, Layout.magnitude, Layout.plain]

theorem IsPortion.plain_write {x : Float} (portion : IsPortion x) :
    Plain (Layout.plain.write x) := by
  rw [portion.write]
  exact (spells_positional _).plain

theorem IsPortion.unsigned?_write {x : Float} (portion : IsPortion x) :
    unsigned? (Layout.plain.write x) = some x := by
  have number := portion.isNumber
  have finite : pattern x ≤ infinite := by
    simpa only [Decimal.isNumber, decide_eq_true_eq] using number
  have whole := assemble_pattern number
  rw [portion.2] at whole
  rw [portion.write, (spells_positional _).unsigned?, read_shortest .up finite, whole]

theorem nearest_le (num den : Nat) : nearest num den ≤ infinite := Nat.min_le_right _ _

theorem isNegative_of_unsigned? {text : List Char} {x : Float} (read : unsigned? text = some x) :
    isNegative x = false := by
  obtain ⟨⟨digits, places⟩, -, rfl⟩ := Option.map_eq_some_iff.1 read
  exact isNegative_assemble false (nearest_le _ _)

end Roadmap.Decimal
