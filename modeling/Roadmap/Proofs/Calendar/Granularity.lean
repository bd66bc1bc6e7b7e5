import Roadmap.Proofs.Calendar.Token

namespace Roadmap

open Calendar

namespace DateToken

def ofMonth (year number : Nat) : DateToken :=
  ⟨String.ofList (padded 4 year ++ '-' :: padded 2 number)⟩

section

variable {year number : Nat} (years : year ≤ 9999) (numbers : number ≤ 99)

include years numbers

theorem isMonth_ofMonth : (ofMonth year number).isMonth = true := by
  refine isMonthText_iff.2 ⟨padded 4 year, padded 2 number, String.toList_ofList, ?_, ?_,
    isDigit_padded, isDigit_padded⟩
  · exact length_padded (by decide) (by omega)
  · exact length_padded (by decide) (by omega)

theorem day?_ofMonth (bound : Bound) :
    (ofMonth year number).day? bound =
      Day.of? year number
        (match bound with
          | .start => 1
          | .finish => (Month.ofYear year number).length) := by
  have long : (padded 4 year).length = 4 := length_padded (by decide) (by omega)
  have short : (padded 2 number).length = 2 := length_padded (by decide) (by omega)
  have read := day?_of_month (t := ofMonth year number) String.toList_ofList long short
    isDigit_padded isDigit_padded bound
  rw [ofDigits_padded, ofDigits_padded] at read
  exact read

theorem readings_ofMonth (lower : 1 ≤ number) (upper : number ≤ 12) :
    (ofMonth year number).day? .start = some (Month.ofYear year number).first ∧
      (ofMonth year number).day? .finish = some (Month.ofYear year number).last := by
  have supported : (Month.ofYear year number).Supported := by
    simp only [Month.Supported, Month.ofYear, Month.year, Month.firstYear, Month.lastYear]
    omega
  obtain ⟨yearOf, numberOf⟩ := (Month.eq_ofYear_iff (m := .ofYear year number) lower upper).1 rfl
  rw [day?_ofMonth years numbers, day?_ofMonth years numbers]
  exact ⟨Day.of?_eq_some_iff.2 ⟨supported, yearOf, numberOf, rfl⟩,
    Day.of?_eq_some_iff.2 ⟨supported, yearOf, numberOf, rfl⟩⟩

theorem isSome_day?_ofMonth (bound : Bound) :
    ((ofMonth year number).day? bound).isSome = true ↔ 1 ≤ number ∧ number ≤ 12 := by
  constructor
  · intro named
    obtain ⟨d, read⟩ := Option.isSome_iff_exists.1 named
    rw [day?_ofMonth years numbers] at read
    obtain ⟨-, -, rfl, -⟩ := Day.of?_eq_some_iff.1 read
    exact ⟨Nat.le_add_left 1 _, d.month.number_le⟩
  · rintro ⟨lower, upper⟩
    obtain ⟨start, finish⟩ := readings_ofMonth years numbers lower upper
    cases bound with
    | start => rw [start]; rfl
    | finish => rw [finish]; rfl

end

theorem isMonth_iff {t : DateToken} :
    t.isMonth = true ↔ ∃ year number, year ≤ 9999 ∧ number ≤ 99 ∧ t = ofMonth year number := by
  constructor
  · intro token
    obtain ⟨year, month, text, four, two, years, months⟩ := isMonthText_iff.1 token
    have yearBound := Decimal.ofDigits_lt years
    have monthBound := Decimal.ofDigits_lt months
    rw [four] at yearBound
    rw [two] at monthBound
    refine ⟨Decimal.ofDigits year, Decimal.ofDigits month, by omega, by omega, ?_⟩
    rw [ofMonth, padded_ofDigits (by decide) four years, padded_ofDigits (by decide) two months,
      ← text]
    cases t
    simp
  · rintro ⟨year, number, years, numbers, rfl⟩
    exact isMonth_ofMonth years numbers

theorem number_eq_one {t : DateToken} (token : t.isMonth = true) {first : Day}
    (start : t.day? .start = some first) : first.number = 1 := by
  obtain ⟨year, number, years, numbers, rfl⟩ := isMonth_iff.1 token
  rw [day?_ofMonth years numbers] at start
  exact (Day.of?_eq_some_iff.1 start).2.2.2

theorem readings_eq {year number : Nat} (years : year ≤ 9999) (numbers : number ≤ 99)
    {first last : Day} (start : (ofMonth year number).day? .start = some first)
    (finish : (ofMonth year number).day? .finish = some last) :
    (1 ≤ number ∧ number ≤ 12) ∧ first = (Month.ofYear year number).first ∧
      last = (Month.ofYear year number).last := by
  have named : ((ofMonth year number).day? .start).isSome = true := by rw [start]; rfl
  have exist := (isSome_day?_ofMonth years numbers .start).1 named
  obtain ⟨start', finish'⟩ := readings_ofMonth years numbers exist.1 exist.2
  exact ⟨exist, Option.some.inj (start.symm.trans start'),
    Option.some.inj (finish.symm.trans finish')⟩

theorem between_readings_iff {year number : Nat} (years : year ≤ 9999) (numbers : number ≤ 99)
    {first last : Day} (start : (ofMonth year number).day? .start = some first)
    (finish : (ofMonth year number).day? .finish = some last) (d : Day) :
    first ≤ d ∧ d ≤ last ↔ d.year = year ∧ d.month.number = number := by
  obtain ⟨⟨lower, upper⟩, rfl, rfl⟩ := readings_eq years numbers start finish
  have same : d.month = .ofYear year number ↔ _ := Month.eq_ofYear_iff lower upper
  rw [Month.first_le_iff, Month.le_last_iff, Day.year, ← same, ← Month.count_inj]
  omega

theorem le_of_readings {t : DateToken} {first last : Day} (start : t.day? .start = some first)
    (finish : t.day? .finish = some last) : first ≤ last ∧ (t.isMonth = false → first = last) := by
  cases token : t.isMonth with
  | false =>
    rw [day?_of_not_month token] at start finish
    obtain rfl := Option.some.inj (start.symm.trans finish)
    exact ⟨Day.le_refl _, fun _ => rfl⟩
  | true =>
    obtain ⟨year, number, years, numbers, rfl⟩ := isMonth_iff.1 token
    obtain ⟨-, rfl, rfl⟩ := readings_eq years numbers start finish
    exact ⟨Month.first_le_iff.2 (Int.le_refl _), nofun⟩

theorem isMonth_normalize (t : DateToken) (bound : Bound) :
    (t.normalize bound).isMonth = false := by
  unfold normalize
  dsimp only
  split
  · next token =>
    obtain ⟨year, month, text, four, two, -, -⟩ := isMonthText_iff.1 token
    rw [Bool.eq_false_iff, isMonth, String.toList_ofList]
    intro completed
    obtain ⟨year', month', text', four', two', -, -⟩ := isMonthText_iff.1 completed
    have long := congrArg List.length text'
    simp only [text, List.length_append, List.length_cons, four, two, four', two'] at long
    omega
  · next other => exact Bool.eq_false_iff.2 other

theorem normalize_of_not_month {t : DateToken} (other : t.isMonth = false) (bound : Bound) :
    t.normalize bound = t := by
  unfold isMonth at other
  simp [normalize, other]

theorem normalize_normalize (t : DateToken) (bound bound' : Bound) :
    (t.normalize bound).normalize bound' = t.normalize bound :=
  normalize_of_not_month (isMonth_normalize t bound) bound'

theorem normalize_finish {t : DateToken} (token : t.isMonth = true) :
    ∃ last, (namedMonth t.text.toList).last? = some last ∧
      t.normalize .finish = ⟨String.ofList (t.text.toList ++ '-' :: padded 2 last.number)⟩ := by
  refine ⟨_, last?_namedMonth token, ?_⟩
  unfold isMonth at token
  simp [normalize, token, last?_namedMonth token]

/-- What a token stands for at the start and at the end of a range. -/
structure Granular (t : DateToken) : Prop where
  both : (t.day? .start).isSome = true ↔ (t.day? .finish).isSome = true
  ordered {first last : Day} : t.day? .start = some first → t.day? .finish = some last →
    first ≤ last
  equal {first last : Day} : t.isMonth = false → t.day? .start = some first →
    t.day? .finish = some last → first = last
  month : t.isMonth = true ↔
    ∃ year number, year ≤ 9999 ∧ number ≤ 99 ∧ t = ofMonth year number
  exists_iff {year number : Nat} : year ≤ 9999 → number ≤ 99 → t = ofMonth year number →
    ∀ bound, (t.day? bound).isSome = true ↔ 1 ≤ number ∧ number ≤ 12
  between_iff {year number : Nat} {first last : Day} : year ≤ 9999 → number ≤ 99 →
    t = ofMonth year number → t.day? .start = some first → t.day? .finish = some last →
    ∀ d : Day, first ≤ d ∧ d ≤ last ↔ d.year = year ∧ d.month.number = number
  complete (bound : Bound) : (t.normalize bound).isMonth = false
  idempotent (bound bound' : Bound) : (t.normalize bound).normalize bound' = t.normalize bound
  found : t.isMonth = true → ∃ last, (namedMonth t.text.toList).last? = some last ∧
    t.normalize .finish = ⟨String.ofList (t.text.toList ++ '-' :: padded 2 last.number)⟩

theorem granular (t : DateToken) : t.Granular where
  both := by rw [isSome_day?]
  ordered start finish := (le_of_readings start finish).1
  equal other start finish := (le_of_readings start finish).2 other
  month := isMonth_iff
  exists_iff years numbers same := same ▸ isSome_day?_ofMonth years numbers
  between_iff years numbers same start finish :=
    between_readings_iff years numbers (same ▸ start) (same ▸ finish)
  complete := isMonth_normalize t
  idempotent := normalize_normalize t
  found := normalize_finish

theorem existsUnique_month {d : Day} (lower : 0 ≤ d.year) (upper : d.year ≤ 9999) :
    ∃! t : DateToken, t.isMonth = true ∧ ∃ first last, t.day? .start = some first ∧
      t.day? .finish = some last ∧ first ≤ d ∧ d ≤ last := by
  have number := d.month.number_le
  have years : d.year.toNat ≤ 9999 := by omega
  have numbers : d.month.number ≤ 99 := by omega
  obtain ⟨start, finish⟩ := readings_ofMonth years numbers (Nat.le_add_left 1 _) number
  refine ⟨ofMonth d.year.toNat d.month.number, ⟨isMonth_ofMonth years numbers, _, _, start, finish,
    (between_readings_iff years numbers start finish d).2 ⟨by omega, rfl⟩⟩, ?_⟩
  rintro t ⟨token, first, last, start, finish, within⟩
  obtain ⟨year, number, years, numbers, rfl⟩ := isMonth_iff.1 token
  obtain ⟨sameYear, sameNumber⟩ := (between_readings_iff years numbers start finish d).1 within
  rw [sameYear, sameNumber, Int.toNat_natCast]

theorem granular_and_tiled :
    (∀ t : DateToken, t.Granular) ∧
      ∀ d : Day, 0 ≤ d.year → d.year ≤ 9999 →
        ∃! t : DateToken, t.isMonth = true ∧ ∃ first last, t.day? .start = some first ∧
          t.day? .finish = some last ∧ first ≤ d ∧ d ≤ last :=
  ⟨granular, fun _ lower upper => existsUnique_month lower upper⟩

theorem granular_and_tiled_february :
    (⟨"2024-02"⟩ : DateToken).Granular ∧ (⟨"2024-13"⟩ : DateToken).Granular ∧
      (⟨"2024-02"⟩ : DateToken).day? .start = Day.of? 2024 2 1 ∧
      (⟨"2024-02"⟩ : DateToken).day? .finish = Day.of? 2024 2 29 ∧
      (⟨"2024-13"⟩ : DateToken).normalize .finish = ⟨"2024-13-31"⟩ ∧
      0 ≤ (Month.ofYear 2024 2).last.year ∧ (Month.ofYear 2024 2).last.year ≤ 9999 ∧
      ∃! t : DateToken, t.isMonth = true ∧ ∃ first last, t.day? .start = some first ∧
        t.day? .finish = some last ∧ first ≤ (Month.ofYear 2024 2).last ∧
        (Month.ofYear 2024 2).last ≤ last := by
  have lower : 0 ≤ (Month.ofYear 2024 2).last.year := by decide
  have upper : (Month.ofYear 2024 2).last.year ≤ 9999 := by decide
  exact ⟨granular_and_tiled.1 _, granular_and_tiled.1 _, by decide +kernel, by decide +kernel,
    by decide +kernel, lower, upper, granular_and_tiled.2 _ lower upper⟩

end DateToken

end Roadmap
