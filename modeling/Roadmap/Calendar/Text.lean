import Roadmap.Calendar.Day
import Roadmap.Decimal.Text
import Roadmap.Text.Blank

namespace Roadmap.Calendar

def padded (width number : Nat) : List Char :=
  let digits := Nat.toDigits 10 number
  List.replicate (width - digits.length) '0' ++ digits

def writeYear (year : Int) : List Char :=
  if 0 ≤ year ∧ year ≤ 9999 then padded 4 year.toNat
  else (if year < 0 then '-' else '+') :: padded 4 year.natAbs

namespace Day

def write (d : Day) : List Char :=
  writeYear d.year ++ '-' :: padded 2 d.month.number ++ '-' :: padded 2 d.number

protected def toString (d : Day) : String := String.ofList d.write

end Day

def takeDigits? (most : Nat) (text : List Char) : Option (Nat × List Char) :=
  let digits := (text.take most).takeWhile Char.isDigit
  if digits.isEmpty then none else some (Decimal.ofDigits digits, text.drop digits.length)

def takeNumber? (most : Nat) (text : List Char) : Option (Nat × List Char) :=
  takeDigits? most (Text.trimStart text)

/-- A year after any blanks: at most four digits, or a sign and any number of them. -/
def takeYear? (text : List Char) : Option (Int × List Char) :=
  match Text.trimStart text with
  | '-' :: rest => (takeDigits? rest.length rest).map fun (year, rest) => (-(year : Int), rest)
  | '+' :: rest => (takeDigits? rest.length rest).map fun (year, rest) => ((year : Int), rest)
  | rest => (takeDigits? 4 rest).map fun (year, rest) => ((year : Int), rest)

def takeChar? (expected : Char) : List Char → Option (List Char)
  | [] => none
  | c :: rest => if c = expected then some rest else none

/-- A day at the start of a text; `gap` is what may stand before each dash. -/
def takeDay? (gap : List Char → List Char) (text : List Char) : Option (Day × List Char) := do
  let (year, rest) ← takeYear? text
  let rest ← takeChar? '-' (gap rest)
  let (month, rest) ← takeNumber? 2 rest
  let rest ← takeChar? '-' (gap rest)
  let (number, rest) ← takeNumber? 2 rest
  let day ← Day.of? year month number
  return (day, rest)

namespace Day

def parse? (text : List Char) : Option Day :=
  match takeDay? id text with
  | some (day, []) => some day
  | _ => none

def parseLoose? (text : List Char) : Option Day :=
  match takeDay? Text.trimStart text with
  | some (day, rest) => if (Text.trimStart rest).isEmpty then some day else none
  | none => none

end Day

end Roadmap.Calendar
