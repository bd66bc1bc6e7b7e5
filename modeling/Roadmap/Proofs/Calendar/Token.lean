import Roadmap.DateToken
import Roadmap.Proofs.Calendar.Order
import Roadmap.Proofs.Calendar.Text

namespace Roadmap

open Calendar

namespace DateToken

theorem isMonthText_iff {text : List Char} :
    isMonthText text = true ↔
      ∃ year month, text = year ++ '-' :: month ∧ year.length = 4 ∧ month.length = 2 ∧
        (∀ c ∈ year, c.isDigit = true) ∧ ∀ c ∈ month, c.isDigit = true := by
  constructor
  · intro token
    unfold isMonthText at token
    split at token
    · next a b c d dash e f =>
      simp only [List.all_cons, List.all_nil, Bool.and_true, Bool.and_eq_true,
        decide_eq_true_eq] at token
      obtain ⟨⟨digitA, digitB, digitC, digitD, digitE, digitF⟩, rfl⟩ := token
      exact ⟨[a, b, c, d], [e, f], rfl, rfl, rfl, by simp [digitA, digitB, digitC, digitD],
        by simp [digitE, digitF]⟩
    · cases token
  · rintro ⟨year, month, rfl, four, two, years, months⟩
    obtain ⟨a, b, c, d, rfl⟩ : ∃ a b c d, year = [a, b, c, d] := by
      match year, four with
      | [a, b, c, d], _ => exact ⟨a, b, c, d, rfl⟩
    obtain ⟨e, f, rfl⟩ := List.length_eq_two.1 two
    simp_all [isMonthText]

theorem namedMonth_append {year month : List Char} (four : year.length = 4) :
    namedMonth (year ++ '-' :: month) =
      Month.ofYear (Decimal.ofDigits year) (Decimal.ofDigits month) := by
  rw [namedMonth, List.take_left' four, List.append_cons, List.drop_left' (by simp [four])]

theorem last?_namedMonth {text : List Char} (token : isMonthText text = true) :
    (namedMonth text).last? = some (namedMonth text).last := by
  obtain ⟨year, month, rfl, four, two, years, months⟩ := isMonthText_iff.1 token
  have yearBound := Decimal.ofDigits_lt years
  have monthBound := Decimal.ofDigits_lt months
  rw [four] at yearBound
  rw [two] at monthBound
  rw [namedMonth_append four]
  refine Month.last?_of_supported ?_ ?_ <;>
  · simp only [Month.Supported, Month.next, Month.plus, Month.ofYear, Month.year, Month.firstYear,
      Month.lastYear]
    omega

theorem day?_of_not_month {t : DateToken} (other : isMonthText t.text.toList = false)
    (bound : Bound) : t.day? bound = Day.parse? t.text.toList := by
  simp [day?, normalize, other]

theorem day?_of_month {t : DateToken} {year month : List Char}
    (text : t.text.toList = year ++ '-' :: month) (four : year.length = 4)
    (two : month.length = 2) (years : ∀ c ∈ year, c.isDigit = true)
    (months : ∀ c ∈ month, c.isDigit = true) (bound : Bound) :
    t.day? bound =
      Day.of? (Decimal.ofDigits year) (Decimal.ofDigits month)
        (match bound with
          | .start => 1
          | .finish => (Month.ofYear (Decimal.ofDigits year) (Decimal.ofDigits month)).length) := by
  have isMonth : isMonthText t.text.toList = true :=
    isMonthText_iff.2 ⟨year, month, text, four, two, years, months⟩
  have named : namedMonth t.text.toList =
      Month.ofYear (Decimal.ofDigits year) (Decimal.ofDigits month) := by
    rw [text, namedMonth_append four]
  have yearRow : DigitRow 4 year := ⟨List.ne_nil_of_length_pos (by omega), by omega, years⟩
  have monthRow : DigitRow 2 month := ⟨List.ne_nil_of_length_pos (by omega), by omega, months⟩
  have parsed : ∀ number, number < 10 ^ 2 →
      Day.parse? (t.text.toList ++ '-' :: padded 2 number) =
        Day.of? (Decimal.ofDigits year) (Decimal.ofDigits month) number := by
    intro number fits
    rw [text, List.append_assoc, List.cons_append,
      parse?_append (fun rest => takeYear?_append yearRow (by simp)) monthRow
        (digitRow_padded (by decide) fits),
      ofDigits_padded]
  have short := (Month.ofYear (Decimal.ofDigits year) (Decimal.ofDigits month)).length_le
  have last := last?_namedMonth isMonth
  cases bound with
  | start =>
    rw [← parsed 1 (by decide)]
    simp [day?, normalize, isMonth]
  | finish =>
    rw [← parsed _ (Nat.lt_of_le_of_lt short (by decide))]
    rw [named] at last
    simp [day?, normalize, isMonth, named, last, Month.last]

theorem isSome_day? (t : DateToken) : (t.day? .start).isSome = (t.day? .finish).isSome := by
  cases isMonth : isMonthText t.text.toList with
  | false => rw [day?_of_not_month isMonth, day?_of_not_month isMonth]
  | true =>
    obtain ⟨year, month, text, four, two, years, months⟩ := isMonthText_iff.1 isMonth
    rw [day?_of_month text four two years months, day?_of_month text four two years months]
    -- A month has a first and a last day; so only the year and the number of the month decide.
    have first := (Month.ofYear (Decimal.ofDigits year) (Decimal.ofDigits month)).length_pos
    simp only [Day.of?]
    split <;> split <;> simp_all

theorem supported_of_day? {t : DateToken} {bound : Bound} {d : Day}
    (read : t.day? bound = some d) : d.Supported :=
  Day.supported_of_parse? read

theorem isMonthText_write (d : Day) : isMonthText d.write = false := by
  rw [Bool.eq_false_iff]
  intro month
  obtain ⟨year, month, text, four, two, -, -⟩ := isMonthText_iff.1 month
  have long := d.ten_le_length_write
  rw [text, List.length_append, List.length_cons] at long
  omega

theorem day?_ofDay {d : Day} (supported : d.Supported) (bound : Bound) :
    (ofDay d).day? bound = some d := by
  have text : (ofDay d).text.toList = d.write := by simp [ofDay, Day.toString]
  rw [day?_of_not_month (by rw [text, isMonthText_write]), text, Day.parse?_write supported]

theorem isSome_day?_next {t : DateToken} (named : (t.day? .finish).isSome = true) (bound : Bound) :
    (t.next.day? bound).isSome = true := by
  have self : ∀ bound, (t.day? bound).isSome = true := by
    intro bound
    cases bound with
    | start => rw [isSome_day?, named]
    | finish => exact named
  unfold next
  split
  · next day found =>
    obtain ⟨last, -, later⟩ := Option.bind_eq_some_iff.1 found
    unfold Day.next? at later
    split at later
    · next supported =>
      cases later
      rw [day?_ofDay supported]
      rfl
    · cases later
  · exact self bound

theorem next_of_day? {t : DateToken} {d : Day} (read : t.day? .finish = some d)
    (more : d ≠ Day.greatest) : t.next = ofDay d.next := by
  have supported := (Day.supported_next_iff (supported_of_day? read)).2 more
  unfold next
  rw [read, Option.bind_some, Day.next?, if_pos supported]

theorem next_of_unread {t : DateToken} (unread : t.day? .finish = none) : t.next = t := by
  unfold next
  rw [unread, Option.bind_none]

theorem day?_next {t : DateToken} {d : Day} (read : t.day? .finish = some d)
    (more : d ≠ Day.greatest) : t.next.day? .start = some d.next := by
  have supported := (Day.supported_next_iff (supported_of_day? read)).2 more
  rw [next_of_day? read more, day?_ofDay supported]

theorem day?_next_of_unread {t : DateToken} (unread : t.day? .finish = none) :
    t.next.day? .start = none := by
  rw [next_of_unread unread, ← Option.isNone_iff_eq_none, ← Option.not_isSome, isSome_day?, unread]
  rfl

end DateToken

end Roadmap
