import Roadmap.Calendar.Text
import Roadmap.Proofs.Decimal.Plain
import Roadmap.Proofs.Text.Trim

namespace Roadmap.Calendar

open Text

structure DigitRow (most : Nat) (text : List Char) : Prop where
  nonempty : text ≠ []
  fits : text.length ≤ most
  digit : ∀ c ∈ text, c.isDigit = true

theorem isDigit_padded {width number : Nat} : ∀ c ∈ padded width number, c.isDigit = true := by
  intro c member
  rcases List.mem_append.1 member with zero | digit
  · exact Decimal.isDigit_zeros c zero
  · exact Decimal.isDigit_toDigits c digit

theorem ofDigits_padded (width number : Nat) : Decimal.ofDigits (padded width number) = number := by
  rw [Decimal.ofDigits_eq, padded, Nat.ofDigitChars_append, Nat.ofDigitChars_replicate_zero,
    Nat.mul_zero, Nat.ofDigitChars_ten_toDigits]

theorem le_length_padded (width number : Nat) : width ≤ (padded width number).length := by
  simp only [padded, List.length_append, List.length_replicate]
  omega

theorem padded_ne_nil (width number : Nat) : padded width number ≠ [] := by
  simp [padded, Nat.toDigits_ne_nil]

theorem digitRow_padded {width number : Nat} (positive : 0 < width) (fits : number < 10 ^ width) :
    DigitRow width (padded width number) := by
  have short : (Nat.toDigits 10 number).length ≤ width :=
    (Nat.length_toDigits_le_iff (by decide) positive).2 fits
  refine ⟨padded_ne_nil _ _, ?_, isDigit_padded⟩
  simp only [padded, List.length_append, List.length_replicate]
  omega

theorem length_padded {width number : Nat} (positive : 0 < width) (fits : number < 10 ^ width) :
    (padded width number).length = width :=
  Nat.le_antisymm (digitRow_padded positive fits).fits (le_length_padded _ _)

theorem padded_ofDigits {digits : List Char} {width : Nat} (positive : 0 < width)
    (long : digits.length = width) (digit : ∀ c ∈ digits, c.isDigit = true) :
    padded width (Decimal.ofDigits digits) = digits := by
  have fits := Decimal.ofDigits_lt digit
  rw [long] at fits
  refine Decimal.eq_of_ofDigits_eq ?_ isDigit_padded digit (ofDigits_padded _ _)
  rw [length_padded positive fits, long]

theorem takeDigits?_append {most : Nat} {digits rest : List Char} (row : DigitRow most digits)
    (stop : ∀ c ∈ rest.head?, c.isDigit = false) :
    takeDigits? most (digits ++ rest) = some (Decimal.ofDigits digits, rest) := by
  have front : ((digits ++ rest).take most).takeWhile Char.isDigit = digits := by
    rw [List.take_append, List.take_of_length_le row.fits]
    refine Decimal.takeWhile_digits row.digit fun c head => ?_
    rw [List.head?_take] at head
    split at head
    · cases head
    · exact stop c head
  simp [takeDigits?, front, row.nonempty]

theorem head?_of_digitRow {most : Nat} {digits : List Char} (row : DigitRow most digits)
    (rest : List Char) : ∃ c more, digits ++ rest = c :: more ∧ c.isDigit = true := by
  obtain ⟨c, more, rfl⟩ := List.exists_cons_of_ne_nil row.nonempty
  exact ⟨c, more ++ rest, rfl, row.digit c List.mem_cons_self⟩

theorem trimStart_of_digitRow {most : Nat} {digits : List Char} (row : DigitRow most digits)
    (rest : List Char) : trimStart (digits ++ rest) = digits ++ rest := by
  obtain ⟨c, more, same, digit⟩ := head?_of_digitRow row rest
  rw [same]
  exact trimStart_eq_self (by simpa using isBlank_of_isDigit digit)

theorem takeNumber?_append {most : Nat} {digits rest : List Char} (row : DigitRow most digits)
    (stop : ∀ c ∈ rest.head?, c.isDigit = false) :
    takeNumber? most (digits ++ rest) = some (Decimal.ofDigits digits, rest) := by
  rw [takeNumber?, trimStart_of_digitRow row, takeDigits?_append row stop]

theorem takeYear?_append {digits rest : List Char} (row : DigitRow 4 digits)
    (stop : ∀ c ∈ rest.head?, c.isDigit = false) :
    takeYear? (digits ++ rest) = some ((Decimal.ofDigits digits : Int), rest) := by
  obtain ⟨c, more, same, digit⟩ := head?_of_digitRow row rest
  have read := takeDigits?_append row stop
  rw [takeYear?, trimStart_of_digitRow row]
  rw [same] at read ⊢
  split
  · next minus =>
    cases minus
    simp at digit
  · next plus =>
    cases plus
    simp at digit
  · rw [read]
    rfl

theorem takeYear?_sign {digits rest : List Char} (row : DigitRow digits.length digits)
    (stop : ∀ c ∈ rest.head?, c.isDigit = false) :
    takeYear? ('-' :: (digits ++ rest)) = some (-(Decimal.ofDigits digits : Int), rest) ∧
      takeYear? ('+' :: (digits ++ rest)) = some ((Decimal.ofDigits digits : Int), rest) := by
  have minus : isBlank '-' = false := by decide
  have plus : isBlank '+' = false := by decide
  have row' : DigitRow (digits ++ rest).length digits := ⟨row.nonempty, by simp, row.digit⟩
  have read := takeDigits?_append row' stop
  constructor
  · rw [takeYear?, trimStart_eq_self (by simpa using minus)]
    simp only [read, Option.map_some]
  · rw [takeYear?, trimStart_eq_self (by simpa using plus)]
    simp only [read, Option.map_some]

theorem takeYear?_writeYear (year : Int) {rest : List Char}
    (stop : ∀ c ∈ rest.head?, c.isDigit = false) :
    takeYear? (writeYear year ++ rest) = some (year, rest) := by
  by_cases short : 0 ≤ year ∧ year ≤ 9999
  · have row : DigitRow 4 (padded 4 year.toNat) := digitRow_padded (by decide) (by omega)
    rw [writeYear, if_pos short, takeYear?_append row stop, ofDigits_padded,
      Int.toNat_of_nonneg short.1]
  · have row : DigitRow (padded 4 year.natAbs).length (padded 4 year.natAbs) :=
      ⟨padded_ne_nil _ _, Nat.le_refl _, isDigit_padded⟩
    have read := takeYear?_sign row stop
    rw [ofDigits_padded] at read
    rw [writeYear, if_neg short]
    by_cases negative : year < 0
    · have value : -(year.natAbs : Int) = year := by omega
      rw [if_pos negative, List.cons_append, read.1, value]
    · have value : (year.natAbs : Int) = year := by omega
      rw [if_neg negative, List.cons_append, read.2, value]

theorem takeDay?_append {gap : List Char → List Char}
    (still : ∀ rest, gap ('-' :: rest) = '-' :: rest) {written month number rest : List Char}
    {year : Int} (takes : ∀ rest, takeYear? (written ++ '-' :: rest) = some (year, '-' :: rest))
    (months : DigitRow 2 month) (numbers : DigitRow 2 number)
    (stop : ∀ c ∈ rest.head?, c.isDigit = false) :
    takeDay? gap (written ++ '-' :: (month ++ '-' :: (number ++ rest))) =
      (Day.of? year (Decimal.ofDigits month) (Decimal.ofDigits number)).map (·, rest) := by
  have second : ∀ rest : List Char,
      takeNumber? 2 (month ++ '-' :: rest) = some (Decimal.ofDigits month, '-' :: rest) :=
    fun rest => takeNumber?_append months (by simp)
  have third : takeNumber? 2 (number ++ rest) = some (Decimal.ofDigits number, rest) :=
    takeNumber?_append numbers stop
  rw [Option.map_eq_bind]
  simp [takeDay?, takes, still, second, third, takeChar?]

theorem parse?_append {written month number : List Char} {year : Int}
    (takes : ∀ rest, takeYear? (written ++ '-' :: rest) = some (year, '-' :: rest))
    (months : DigitRow 2 month) (numbers : DigitRow 2 number) :
    Day.parse? (written ++ '-' :: (month ++ '-' :: number)) =
      Day.of? year (Decimal.ofDigits month) (Decimal.ofDigits number) := by
  have parts : takeDay? id (written ++ '-' :: (month ++ '-' :: (number ++ []))) = _ :=
    takeDay?_append (fun _ => rfl) takes months numbers (by simp)
  rw [List.append_nil] at parts
  rw [Day.parse?, parts]
  cases Day.of? year (Decimal.ofDigits month) (Decimal.ofDigits number) with
  | none => rfl
  | some day => rfl

namespace Day

theorem parts_of_parse? {text : List Char} {d : Day} (read : parse? text = some d) :
    ∃ year rest₁ rest₂ month rest₃ rest₄ number, takeYear? text = some (year, rest₁) ∧
      takeChar? '-' rest₁ = some rest₂ ∧ takeNumber? 2 rest₂ = some (month, rest₃) ∧
      takeChar? '-' rest₃ = some rest₄ ∧ takeNumber? 2 rest₄ = some (number, []) ∧
      of? year month number = some d := by
  unfold parse? at read
  split at read
  · next day taken =>
    cases read
    obtain ⟨⟨year, rest₁⟩, years, taken⟩ := Option.bind_eq_some_iff.1 taken
    obtain ⟨rest₂, dash₁, taken⟩ := Option.bind_eq_some_iff.1 taken
    obtain ⟨⟨month, rest₃⟩, months, taken⟩ := Option.bind_eq_some_iff.1 taken
    obtain ⟨rest₄, dash₂, taken⟩ := Option.bind_eq_some_iff.1 taken
    obtain ⟨⟨number, rest₅⟩, numbers, taken⟩ := Option.bind_eq_some_iff.1 taken
    obtain ⟨day, exist, same⟩ := Option.bind_eq_some_iff.1 taken
    cases same
    exact ⟨_, _, _, _, _, _, _, years, dash₁, months, dash₂, numbers, exist⟩
  · cases read

theorem supported_of_parse? {text : List Char} {d : Day} (read : parse? text = some d) :
    d.Supported := by
  obtain ⟨_, _, _, _, _, _, _, -, -, -, -, -, exist⟩ := parts_of_parse? read
  exact (of?_eq_some_iff.1 exist).1

theorem takeDay?_write {d : Day} (supported : d.Supported) {gap : List Char → List Char}
    (still : ∀ rest, gap ('-' :: rest) = '-' :: rest) {rest : List Char}
    (stop : ∀ c ∈ rest.head?, c.isDigit = false) :
    takeDay? gap (d.write ++ rest) = some (d, rest) := by
  have month : DigitRow 2 (padded 2 d.month.number) :=
    digitRow_padded (by decide) (Nat.lt_of_le_of_lt d.month.number_le (by decide))
  have number : DigitRow 2 (padded 2 d.number) :=
    digitRow_padded (by decide)
      (Nat.lt_of_le_of_lt (Nat.le_trans d.number_le d.month.length_le) (by decide))
  have read := takeDay?_append still (fun rest => takeYear?_writeYear d.year (by simp)) month number
    stop
  have exist : of? d.year d.month.number d.number = some d :=
    of?_eq_some_iff.2 ⟨supported, rfl, rfl, rfl⟩
  rw [ofDigits_padded, ofDigits_padded, exist] at read
  simpa [write] using read

theorem parse?_write {d : Day} (supported : d.Supported) : parse? d.write = some d := by
  have whole : takeDay? id (d.write ++ []) = some (d, []) :=
    takeDay?_write supported (fun _ => rfl) (by simp)
  rw [List.append_nil] at whole
  rw [parse?, whole]

theorem ten_le_length_write (d : Day) : 10 ≤ d.write.length := by
  have year : 4 ≤ (writeYear d.year).length := by
    unfold writeYear
    split
    · exact le_length_padded _ _
    · exact Nat.le_succ_of_le (le_length_padded _ _)
  have month := le_length_padded 2 d.month.number
  have number := le_length_padded 2 d.number
  simp only [write, List.length_append, List.length_cons]
  omega

end Day

end Roadmap.Calendar
