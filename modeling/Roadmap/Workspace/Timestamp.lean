import Roadmap.Calendar.Text

namespace Roadmap

open Calendar

structure Timestamp where
  day : Day
  minute : Nat
  second : Nat
  nanosecond : Nat
  supported : day.Supported
  minute_lt : minute < 1440
  second_le : second ≤ 60
  nanosecond_lt : nanosecond < 1000000000
  deriving DecidableEq

namespace Timestamp

def writeFraction (nanosecond : Nat) : List Char :=
  if nanosecond = 0 then []
  else if nanosecond % 1000000 = 0 then '.' :: padded 3 (nanosecond / 1000000)
  else if nanosecond % 1000 = 0 then '.' :: padded 6 (nanosecond / 1000)
  else '.' :: padded 9 nanosecond

def write (t : Timestamp) : List Char :=
  t.day.write ++ 'T' :: padded 2 (t.minute / 60) ++ ':' :: padded 2 (t.minute % 60)
    ++ ':' :: padded 2 t.second ++ writeFraction t.nanosecond ++ ['Z']

protected def toString (t : Timestamp) : String := String.ofList t.write

def takeFraction? : List Char → Option (Nat × List Char)
  | '.' :: rest =>
    let digits := rest.takeWhile Char.isDigit
    let kept := digits.take 9
    if digits.isEmpty then none
    else some (Decimal.ofDigits kept * Decimal.pow10 (9 - kept.length), rest.drop digits.length)
  | rest => some (0, rest)

def takeTwoDigits? : List Char → Option (Nat × List Char)
  | a :: b :: rest =>
    if a.isDigit && b.isDigit then some (Decimal.ofDigits [a, b], rest) else none
  | _ => none

def takeOffsetMinutes? (text : List Char) : Option (Nat × List Char) := do
  let (hours, rest) ← takeTwoDigits? text
  let (minutes, rest) ← takeTwoDigits? (rest.dropWhile fun c => c = ':' || Text.isBlank c)
  if hours < 24 ∧ minutes < 60 then some (60 * hours + minutes, rest) else none

def takeOffset? (text : List Char) : Option (Int × List Char) :=
  if (text.take 3).map Char.toLower = "utc".toList then some (0, text.drop 3)
  else
    match text with
    | c :: rest =>
      if c = 'Z' || c = 'z' then some (0, rest)
      else if c = '+' then (takeOffsetMinutes? rest).map fun (ahead, rest) => ((ahead : Int), rest)
      else if c = '-' || c = '\u2212' then
        (takeOffsetMinutes? rest).map fun (behind, rest) => (-(behind : Int), rest)
      else none
    | [] => none

def settle (day : Day) (minute : Int) : Day × Nat :=
  if minute < 0 then (day.previous, (minute + 1440).toNat)
  else if 1440 ≤ minute then (day.next, (minute - 1440).toNat)
  else (day, minute.toNat)

def of? (day : Day) (minute second nanosecond : Nat) : Option Timestamp :=
  if h : day.Supported ∧ minute < 1440 ∧ second ≤ 60 ∧ nanosecond < 1000000000 then
    some ⟨day, minute, second, nanosecond, h.1, h.2.1, h.2.2.1, h.2.2.2⟩
  else none

def parse? (text : String) : Option Timestamp := do
  let (day, rest) ← takeDay? Text.trimStart text.toList
  let rest ←
    match rest with
    | c :: rest => if c = 'T' || c = 't' || c = ' ' then some rest else none
    | [] => none
  let (hour, rest) ← takeNumber? 2 rest
  let rest ← takeChar? ':' (Text.trimStart rest)
  let (minute, rest) ← takeNumber? 2 rest
  let rest ← takeChar? ':' (Text.trimStart rest)
  let (second, rest) ← takeNumber? 2 rest
  let (nanosecond, rest) ← takeFraction? rest
  let (ahead, rest) ← takeOffset? (Text.trimStart rest)
  if 23 < hour ∨ 59 < minute ∨ (Text.trimStart rest).isEmpty = false then none
  else
    let (day, minute) := settle day (60 * hour + minute - ahead)
    of? day minute second nanosecond

end Timestamp

end Roadmap
