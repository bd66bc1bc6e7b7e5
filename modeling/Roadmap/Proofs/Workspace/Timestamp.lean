import Roadmap.Proofs.Calendar.Text
import Roadmap.Workspace.Timestamp

namespace Roadmap.Timestamp

open Calendar Text

theorem trimStart_cons {c : Char} (solid : isBlank c = false) (rest : List Char) :
    trimStart (c :: rest) = c :: rest :=
  trimStart_eq_self (by simpa using solid)

theorem takeNumber?_padded {number : Nat} (fits : number < 100) {rest : List Char}
    (stop : ∀ c ∈ rest.head?, c.isDigit = false) :
    takeNumber? 2 (padded 2 number ++ rest) = some (number, rest) := by
  rw [takeNumber?_append (digitRow_padded (by decide) fits) stop, ofDigits_padded]

theorem takeFraction?_point {places count : Nat} (positive : 0 < places) (few : places ≤ 9)
    (fits : count < 10 ^ places) {rest : List Char} (stop : ∀ c ∈ rest.head?, c.isDigit = false) :
    takeFraction? ('.' :: (padded places count ++ rest)) =
      some (count * Decimal.pow10 (9 - places), rest) := by
  have row : DigitRow places (padded places count) := digitRow_padded positive fits
  have length : (padded places count).length = places := length_padded positive fits
  have digits : (padded places count ++ rest).takeWhile Char.isDigit = padded places count :=
    Decimal.takeWhile_digits row.digit stop
  have kept : (padded places count).take 9 = padded places count :=
    List.take_of_length_le (by omega)
  have nonempty : (padded places count).isEmpty = false := by simp [row.nonempty]
  simp only [takeFraction?, digits, kept, nonempty, ofDigits_padded, length,
    List.drop_left' length]
  rfl

theorem takeFraction?_writeFraction {nanosecond : Nat} (fits : nanosecond < 1000000000)
    {c : Char} {rest : List Char} (letter : c.isDigit = false) (other : c ≠ '.') :
    takeFraction? (writeFraction nanosecond ++ c :: rest) = some (nanosecond, c :: rest) := by
  have stop : ∀ d ∈ (c :: rest).head?, d.isDigit = false := by simpa using letter
  unfold writeFraction
  split_ifs with none milli micro
  · rw [List.nil_append, takeFraction?, none]
    exact fun rest same => absurd (List.cons.inj same).1 other
  · have whole : nanosecond / 1000000 * Decimal.pow10 (9 - 3) = nanosecond :=
      Nat.div_mul_cancel (Nat.dvd_of_mod_eq_zero milli)
    rw [List.cons_append, takeFraction?_point (by decide) (by decide) (by omega) stop, whole]
  · have whole : nanosecond / 1000 * Decimal.pow10 (9 - 6) = nanosecond :=
      Nat.div_mul_cancel (Nat.dvd_of_mod_eq_zero micro)
    rw [List.cons_append, takeFraction?_point (by decide) (by decide) (by omega) stop, whole]
  · rw [List.cons_append, takeFraction?_point (by decide) (by decide) fits stop]
    exact congrArg (fun n => some (n, c :: rest)) (Nat.mul_one nanosecond)

theorem settle_of_lt (day : Day) {minute : Nat} (within : minute < 1440) :
    settle day minute = (day, minute) := by
  rw [settle, if_neg (by omega), if_neg (by omega), Int.toNat_natCast]

theorem head?_writeFraction (nanosecond : Nat) :
    ∀ c ∈ (writeFraction nanosecond ++ ['Z']).head?, c.isDigit = false := by
  unfold writeFraction
  split_ifs
  all_goals simp

theorem toList_toString (t : Timestamp) :
    t.toString.toList = t.day.write ++ 'T' :: (padded 2 (t.minute / 60) ++ ':' ::
      (padded 2 (t.minute % 60) ++ ':' :: (padded 2 t.second ++
        (writeFraction t.nanosecond ++ ['Z'])))) := by
  simp [Timestamp.toString, write]

theorem of?_self (t : Timestamp) : of? t.day t.minute t.second t.nanosecond = some t :=
  dif_pos ⟨t.supported, t.minute_lt, t.second_le, t.nanosecond_lt⟩

theorem parse?_toString (t : Timestamp) : parse? t.toString = some t := by
  -- Each part is read up to where the next one starts.
  have dash : ∀ rest, trimStart ('-' :: rest) = '-' :: rest := trimStart_cons (by decide)
  have colon : ∀ rest, trimStart (':' :: rest) = ':' :: rest := trimStart_cons (by decide)
  have minute := t.minute_lt
  have second := t.second_le
  have date : ∀ rest, takeDay? trimStart (t.day.write ++ 'T' :: rest) = some (t.day, 'T' :: rest) :=
    fun rest => Day.takeDay?_write t.supported dash (by simp)
  have hours : ∀ rest, takeNumber? 2 (padded 2 (t.minute / 60) ++ ':' :: rest) =
      some (t.minute / 60, ':' :: rest) :=
    fun rest => takeNumber?_padded (by omega) (by simp)
  have minutes : ∀ rest, takeNumber? 2 (padded 2 (t.minute % 60) ++ ':' :: rest) =
      some (t.minute % 60, ':' :: rest) :=
    fun rest => takeNumber?_padded (by omega) (by simp)
  have seconds : takeNumber? 2 (padded 2 t.second ++ (writeFraction t.nanosecond ++ ['Z'])) =
      some (t.second, writeFraction t.nanosecond ++ ['Z']) :=
    takeNumber?_padded (by omega) (head?_writeFraction _)
  have fraction : takeFraction? (writeFraction t.nanosecond ++ ['Z']) =
      some (t.nanosecond, ['Z']) :=
    takeFraction?_writeFraction t.nanosecond_lt (by decide) (by decide)
  have offset : takeOffset? (trimStart ['Z']) = some (0, []) := by decide
  have total : 60 * ((t.minute / 60 : Nat) : Int) + ((t.minute % 60 : Nat) : Int) - 0 =
      t.minute := by
    omega
  have clock : ¬ (23 < t.minute / 60 ∨ 59 < t.minute % 60 ∨
      (trimStart []).isEmpty = false) := by
    have ending : (trimStart []).isEmpty = true := rfl
    simp only [ending, Bool.true_eq_false, or_false]
    omega
  simp only [parse?, toList_toString, date, hours, minutes, seconds, fraction, offset, colon,
    takeChar?, Option.bind_eq_bind, Option.bind_some, decide_true, Bool.true_or, if_true]
  rw [if_neg clock, total, settle_of_lt t.day minute, of?_self]

end Roadmap.Timestamp
