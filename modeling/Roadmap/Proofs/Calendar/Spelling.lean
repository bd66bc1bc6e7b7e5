import Mathlib.Order.Bounds.Basic
import Roadmap.Proofs.Calendar.Token

namespace Roadmap.Calendar

open Text

def Blank (gap : List Char) : Prop := ∀ c ∈ gap, isBlank c = true

inductive SpellsYear : Int → List Char → Prop
  | unsigned {digits : List Char} (row : DigitRow 4 digits) :
    SpellsYear (Decimal.ofDigits digits) digits
  | negative {digits : List Char} (row : DigitRow digits.length digits) :
    SpellsYear (-(Decimal.ofDigits digits : Int)) ('-' :: digits)
  | positive {digits : List Char} (row : DigitRow digits.length digits) :
    SpellsYear (Decimal.ofDigits digits) ('+' :: digits)

structure SpellsNumber (value : Nat) (digits : List Char) : Prop where
  row : DigitRow 2 digits
  value : Decimal.ofDigits digits = value

/-- The three numbers with dashes between them; blanks stand before numbers only. -/
inductive Day.Spells (d : Day) : List Char → Prop
  | intro {gap₁ year gap₂ month gap₃ number : List Char}
    (blank₁ : Blank gap₁) (years : SpellsYear d.year year)
    (blank₂ : Blank gap₂) (months : SpellsNumber d.month.number month)
    (blank₃ : Blank gap₃) (numbers : SpellsNumber d.number number) :
    Spells d (gap₁ ++ (year ++ '-' :: (gap₂ ++ (month ++ '-' :: (gap₃ ++ number)))))

theorem exists_gap (text : List Char) : ∃ gap, Blank gap ∧ text = gap ++ trimStart text :=
  ⟨text.takeWhile isBlank, fun _ => List.mem_takeWhile_imp, List.takeWhile_append_dropWhile.symm⟩

theorem takeChar?_eq_some {c : Char} {text rest : List Char}
    (taken : takeChar? c text = some rest) : text = c :: rest := by
  cases text with
  | nil => cases taken
  | cons d more =>
    simp only [takeChar?] at taken
    split at taken
    · next same => rw [same, Option.some.inj taken]
    · cases taken

theorem takeDigits?_eq_some {most value : Nat} {text rest : List Char}
    (taken : takeDigits? most text = some (value, rest)) :
    ∃ digits, text = digits ++ rest ∧ DigitRow most digits ∧ Decimal.ofDigits digits = value := by
  unfold takeDigits? at taken
  dsimp only at taken
  split at taken
  · cases taken
  · next nonempty =>
    cases taken
    have front : (text.take most).takeWhile Char.isDigit <+: text.take most :=
      List.takeWhile_prefix _
    refine ⟨_, ?_, ⟨by simpa using nonempty, ?_, fun _ => List.mem_takeWhile_imp⟩, rfl⟩
    · exact (List.prefix_iff_eq_append.1 (front.trans (List.take_prefix most text))).symm
    · exact Nat.le_trans front.length_le (List.length_take_le most text)

theorem takeNumber?_eq_some {value : Nat} {text rest : List Char}
    (taken : takeNumber? 2 text = some (value, rest)) :
    ∃ gap digits, text = gap ++ (digits ++ rest) ∧ Blank gap ∧ SpellsNumber value digits := by
  obtain ⟨gap, blank, parts⟩ := exists_gap text
  obtain ⟨digits, same, row, read⟩ := takeDigits?_eq_some taken
  exact ⟨gap, digits, same ▸ parts, blank, row, read⟩

theorem takeYear?_eq_some {value : Int} {text rest : List Char}
    (taken : takeYear? text = some (value, rest)) :
    ∃ gap year, text = gap ++ (year ++ rest) ∧ Blank gap ∧ SpellsYear value year := by
  obtain ⟨gap, blank, parts⟩ := exists_gap text
  unfold takeYear? at taken
  -- After a sign all that is left may be digits, so the bound on their number says nothing.
  split at taken
  · next more minus =>
    obtain ⟨⟨number, _⟩, read, same⟩ := Option.map_eq_some_iff.1 taken
    cases same
    obtain ⟨digits, rfl, row, rfl⟩ := takeDigits?_eq_some read
    exact ⟨gap, '-' :: digits, by rw [parts, minus]; rfl, blank,
      .negative ⟨row.nonempty, Nat.le_refl _, row.digit⟩⟩
  · next more plus =>
    obtain ⟨⟨number, _⟩, read, same⟩ := Option.map_eq_some_iff.1 taken
    cases same
    obtain ⟨digits, rfl, row, rfl⟩ := takeDigits?_eq_some read
    exact ⟨gap, '+' :: digits, by rw [parts, plus]; rfl, blank,
      .positive ⟨row.nonempty, Nat.le_refl _, row.digit⟩⟩
  · obtain ⟨⟨number, _⟩, read, same⟩ := Option.map_eq_some_iff.1 taken
    cases same
    obtain ⟨digits, whole, row, rfl⟩ := takeDigits?_eq_some read
    exact ⟨gap, digits, by rw [parts, whole], blank, .unsigned row⟩

theorem takeNumber?_gap {most : Nat} {gap : List Char} (blank : Blank gap) (text : List Char) :
    takeNumber? most (gap ++ text) = takeNumber? most text := by
  rw [takeNumber?, takeNumber?, trimStart_blank_append blank]

theorem takeYear?_gap {gap : List Char} (blank : Blank gap) (text : List Char) :
    takeYear? (gap ++ text) = takeYear? text := by
  unfold takeYear?
  rw [trimStart_blank_append blank]

theorem SpellsYear.takes {value : Int} {year rest : List Char} (spells : SpellsYear value year)
    (stop : ∀ c ∈ rest.head?, c.isDigit = false) :
    takeYear? (year ++ rest) = some (value, rest) := by
  cases spells with
  | unsigned row => exact takeYear?_append row stop
  | negative row => exact (takeYear?_sign row stop).1
  | positive row => exact (takeYear?_sign row stop).2

theorem SpellsNumber.takes {value : Nat} {digits rest : List Char}
    (spells : SpellsNumber value digits) (stop : ∀ c ∈ rest.head?, c.isDigit = false) :
    takeNumber? 2 (digits ++ rest) = some (value, rest) := by
  rw [takeNumber?_append spells.row stop, spells.value]

namespace Day

theorem spells_of_parse? {text : List Char} {d : Day} (read : parse? text = some d) :
    d.Spells text := by
  obtain ⟨_, _, _, _, _, _, _, years, dash₁, months, dash₂, numbers, exist⟩ := parts_of_parse? read
  obtain ⟨-, rfl, rfl, rfl⟩ := of?_eq_some_iff.1 exist
  obtain ⟨gap₁, year, rfl, blank₁, spelledYear⟩ := takeYear?_eq_some years
  obtain rfl := takeChar?_eq_some dash₁
  obtain ⟨gap₂, month, rfl, blank₂, spelledMonth⟩ := takeNumber?_eq_some months
  obtain rfl := takeChar?_eq_some dash₂
  obtain ⟨gap₃, number, rfl, blank₃, spelledNumber⟩ := takeNumber?_eq_some numbers
  rw [List.append_nil]
  exact .intro blank₁ spelledYear blank₂ spelledMonth blank₃ spelledNumber

theorem Spells.parse? {text : List Char} {d : Day} (spells : d.Spells text)
    (supported : d.Supported) : parse? text = some d := by
  obtain ⟨blank₁, years, blank₂, months, blank₃, numbers⟩ := spells
  have first : ∀ rest, takeYear? (_ ++ '-' :: rest) = some (d.year, '-' :: rest) :=
    fun rest => years.takes (by simp)
  have second : ∀ rest, takeNumber? 2 (_ ++ '-' :: rest) = some (d.month.number, '-' :: rest) :=
    fun rest => months.takes (by simp)
  have third : takeNumber? 2 (_ ++ []) = some (d.number, []) := numbers.takes (by simp)
  have exist : of? d.year d.month.number d.number = some d :=
    of?_eq_some_iff.2 ⟨supported, rfl, rfl, rfl⟩
  rw [List.append_nil] at third
  simp [Day.parse?, takeDay?, takeYear?_gap blank₁, first, takeNumber?_gap blank₂, second,
    takeNumber?_gap blank₃, third, takeChar?, exist]

theorem parse?_eq_some_iff {text : List Char} {d : Day} :
    parse? text = some d ↔ d.Supported ∧ d.Spells text :=
  ⟨fun read => ⟨supported_of_parse? read, spells_of_parse? read⟩,
    fun ⟨supported, spells⟩ => spells.parse? supported⟩

theorem isGreatest_greatest : IsGreatest {d : Day | d.Supported} greatest := by
  refine ⟨by decide, fun d inside => ?_⟩
  have supported : d.Supported := inside
  rw [greatest, Month.le_last_iff]
  simp only [Supported, Month.Supported, Month.year, Month.ofYear, Month.firstYear,
    Month.lastYear] at supported ⊢
  omega

end Day

end Roadmap.Calendar

namespace Roadmap.DateToken

open Calendar

theorem day?_eq_some_iff {t : DateToken} (other : t.isMonth = false) {bound : Bound} {d : Day} :
    t.day? bound = some d ↔ d.Supported ∧ d.Spells t.text.toList := by
  rw [day?_of_not_month other, Day.parse?_eq_some_iff]

theorem isMonth_ofDay (d : Day) : (ofDay d).isMonth = false := by
  simp [isMonth, ofDay, Day.toString, isMonthText_write]

theorem next_of_last {t : DateToken} (last : ∀ d, t.day? .finish = some d → d = Day.greatest) :
    t.next = t := by
  cases read : t.day? .finish with
  | none => exact next_of_unread read
  | some d =>
    have supported := supported_of_day? read
    obtain rfl := last d read
    have beyond : ¬ Day.greatest.next.Supported := fun next =>
      (Day.supported_next_iff supported).1 next rfl
    unfold next
    rw [read, Option.bind_some, Day.next?, if_neg beyond]

/-- The token after one that ends on a day names the next day, at both ends of a range; a token that
names no day or ends on the last of all is its own successor. -/
theorem next_follows (t : DateToken) :
    (∀ d, t.day? .finish = some d → d ≠ Day.greatest →
      d ⋖ d.next ∧ t.next.isMonth = false ∧ ∀ bound, t.next.day? bound = some d.next) ∧
    ((∀ d, t.day? .finish = some d → d = Day.greatest) → t.next = t) ∧
    IsGreatest {d : Day | d.Supported} Day.greatest ∧
    (∀ d, d.Supported → ∀ bound, (ofDay d).day? bound = some d) ∧
    (t.isMonth = false → ∀ bound d,
      t.day? bound = some d ↔ d.Supported ∧ d.Spells t.text.toList) := by
  refine ⟨fun d read more => ?_, next_of_last, Day.isGreatest_greatest,
    fun d supported => day?_ofDay supported, fun other bound d => day?_eq_some_iff other⟩
  have supported := (Day.supported_next_iff (supported_of_day? read)).2 more
  rw [next_of_day? read more]
  exact ⟨d.covBy_next, isMonth_ofDay d.next, day?_ofDay supported⟩

/-- A leap day spelled with a blank and a single digit, the turn of two years that changes how years
are written, and the end of the calendar. -/
theorem next_follows_turns :
    (⟨" 2024-2-28"⟩ : DateToken).day? .finish = Day.of? 2024 2 28 ∧
      (⟨" 2024-2-28"⟩ : DateToken).next.day? .start = Day.of? 2024 2 29 ∧
      (⟨"9999-12"⟩ : DateToken).day? .finish = Day.of? 9999 12 31 ∧
      (⟨"9999-12"⟩ : DateToken).next.day? .start = Day.of? 10000 1 1 ∧
      (⟨"-0001-12-31"⟩ : DateToken).day? .finish = Day.of? (-1) 12 31 ∧
      (⟨"-0001-12-31"⟩ : DateToken).next.day? .start = Day.of? 0 1 1 ∧
      (⟨"+262142-12-31"⟩ : DateToken).day? .finish = some Day.greatest ∧
      (⟨"+262142-12-31"⟩ : DateToken).next = ⟨"+262142-12-31"⟩ := by
  have leap : (⟨" 2024-2-28"⟩ : DateToken).day? .finish = Day.of? 2024 2 28 := by decide +kernel
  have full : (⟨"9999-12"⟩ : DateToken).day? .finish = Day.of? 9999 12 31 := by decide +kernel
  have zero : (⟨"-0001-12-31"⟩ : DateToken).day? .finish = Day.of? (-1) 12 31 := by decide +kernel
  have last : (⟨"+262142-12-31"⟩ : DateToken).day? .finish = some Day.greatest := by decide +kernel
  refine ⟨leap, ?_, full, ?_, zero, ?_, last, ?_⟩
  · rw [((next_follows _).1 _ leap (by decide)).2.2]
    decide +kernel
  · rw [((next_follows _).1 _ full (by decide)).2.2]
    decide +kernel
  · rw [((next_follows _).1 _ zero (by decide)).2.2]
    decide +kernel
  · exact (next_follows _).2.1 fun d read => (Option.some.inj (last.symm.trans read)).symm

end Roadmap.DateToken
