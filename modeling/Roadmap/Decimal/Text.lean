import Roadmap.Decimal.Binary

namespace Roadmap.Decimal

def ofDigits (digits : List Char) : Nat :=
  digits.foldl (fun count c => 10 * count + (c.toNat - '0'.toNat)) 0

def digitsAndPoint? (text : List Char) : Option (List Char × Nat) :=
  let whole := text.takeWhile Char.isDigit
  match text.dropWhile Char.isDigit with
  | [] => if whole.isEmpty then none else some (whole, 0)
  | '.' :: fraction =>
    if fraction.all Char.isDigit && !(whole.isEmpty && fraction.isEmpty) then
      some (whole ++ fraction, fraction.length)
    else none
  | _ => none

def unsigned? (text : List Char) : Option Float :=
  (digitsAndPoint? text).map fun (digits, places) =>
    assemble false (nearest (ofDigits digits) (pow10 places))

/-- The pattern nearest to `digits · 10 ^ exponent`; exponents far outside the range of doubles
are settled by the number of digits. -/
def nearestScientific (digits : List Char) (exponent : Int) : Nat :=
  let count := ofDigits digits
  if count = 0 then 0
  else if 400 < exponent then infinite
  else if exponent + digits.length < -400 then 0
  else nearest (count * pow10 exponent.toNat) (pow10 (-exponent).toNat)

def integer? : List Char → Option Int
  | '-' :: digits => (natural? digits).map fun count => -(count : Int)
  | '+' :: digits => (natural? digits).map fun count => (count : Int)
  | digits => (natural? digits).map fun count => (count : Int)
where
  natural? (digits : List Char) : Option Nat :=
    if digits.isEmpty || !digits.all Char.isDigit then none else some (ofDigits digits)

def magnitude? (text : List Char) : Option Nat :=
  let name := String.ofList (text.map Char.toLower)
  if name = "inf" || name = "infinity" then some infinite
  else if name = "nan" then some (infinite + 1)
  else
    let isExponent := fun c => c = 'e' || c = 'E'
    let mantissa := text.takeWhile fun c => !isExponent c
    let shift :=
      match text.dropWhile fun c => !isExponent c with
      | [] => some 0
      | _ :: exponent => integer? exponent
    match digitsAndPoint? mantissa, shift with
    | some (digits, places), some exponent => some (nearestScientific digits (exponent - places))
    | _, _ => none

def signed? : List Char → Option Float
  | '-' :: text => (magnitude? text).map (assemble true)
  | '+' :: text => (magnitude? text).map (assemble false)
  | text => (magnitude? text).map (assemble false)

example : unsigned? "0.3".toList = some 0.3 := by decide +kernel
example : unsigned? ".5".toList = some 0.5 := by decide +kernel
example : unsigned? "2.".toList = some 2 := by decide +kernel
example : unsigned? ".".toList = none := by decide +kernel
example : signed? "-1e-7".toList = some (-1e-7) := by decide +kernel

end Roadmap.Decimal
