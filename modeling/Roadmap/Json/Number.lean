import Roadmap.Decimal.Layout
import Roadmap.Decimal.Text
import Roadmap.Json.Value

namespace Roadmap.Json

structure Literal where
  negative : Bool
  whole : List Char
  fraction : Option (List Char)
  exponent : Option (Bool × List Char)

def takeDigits1? (text : List Char) : Option (List Char × List Char) :=
  let digits := text.takeWhile Char.isDigit
  if digits.isEmpty then none else some (digits, text.dropWhile Char.isDigit)

def takeWhole? (text : List Char) : Option (List Char × List Char) := do
  let (digits, rest) ← takeDigits1? text
  if digits.head? = some '0' ∧ digits.length ≠ 1 then none else some (digits, rest)

def takeFraction? : List Char → Option (Option (List Char) × List Char)
  | '.' :: rest => (takeDigits1? rest).map fun (digits, rest) => (some digits, rest)
  | rest => some (none, rest)

def takeExponent? : List Char → Option (Option (Bool × List Char) × List Char)
  | c :: rest =>
    if c = 'e' || c = 'E' then
      let (negative, rest) :=
        match rest with
        | '-' :: rest => (true, rest)
        | '+' :: rest => (false, rest)
        | rest => (false, rest)
      (takeDigits1? rest).map fun (digits, rest) => (some (negative, digits), rest)
    else some (none, c :: rest)
  | [] => some (none, [])

def takeLiteral? (text : List Char) : Option (Literal × List Char) := do
  let (negative, rest) :=
    match text with
    | '-' :: rest => (true, rest)
    | rest => (false, rest)
  let (whole, rest) ← takeWhole? rest
  let (fraction, rest) ← takeFraction? rest
  let (exponent, rest) ← takeExponent? rest
  return (⟨negative, whole, fraction, exponent⟩, rest)

def Literal.ofText? (text : List Char) : Option Literal :=
  match takeLiteral? text with
  | some (literal, []) => some literal
  | _ => none

def significandLimit : Nat := Decimal.pow2 64 - 1

def takeSignificand (significand : Nat) : List Char → Nat × Nat
  | [] => (significand, 0)
  | c :: rest =>
    let longer := 10 * significand + (c.toNat - '0'.toNat)
    if longer ≤ significandLimit then takeSignificand longer rest
    else (significand, rest.length + 1)

def powerOfTen (n : Nat) : Float := Decimal.assemble false (Decimal.nearest (Decimal.pow10 n) 1)

def scale? (x : Float) (exponent : Int) : Option Float :=
  if 308 < exponent then if x == 0 then some x else none
  else if 0 ≤ exponent then
    let product := x * powerOfTen exponent.toNat
    if Decimal.isFinite product then some product else none
  else if -308 ≤ exponent then some (x / powerOfTen (-exponent).toNat)
  else if x == 0 then some x
  -- No power of ten beyond this one is a double, so the way down is taken in steps.
  else scale? (x / powerOfTen 308) (exponent + 308)
termination_by exponent.natAbs

/-- As many leading digits as fit 64 bits, times a power of ten; each step rounds. -/
def Literal.float? (literal : Literal) : Option Float :=
  let (integral, dropped) := takeSignificand 0 literal.whole
  let fraction := literal.fraction.getD []
  let (significand, unused) := takeSignificand integral fraction
  let shift : Int :=
    match literal.exponent with
    | none => 0
    | some (true, digits) => -(Decimal.ofDigits digits : Int)
    | some (false, digits) => Decimal.ofDigits digits
  -- A digit that did not fit still counts for its place before the point, but not after it.
  let places : Int := fraction.length - unused
  let scaled :=
    scale? (Decimal.assemble false (Decimal.nearest significand 1)) (dropped - places + shift)
  scaled.map fun x => if literal.negative then -x else x

def Literal.integer? (literal : Literal) : Option Int :=
  match literal.fraction, literal.exponent with
  | none, none =>
    let count := Decimal.ofDigits literal.whole
    if literal.negative then if count = 0 then none else some (-count) else some count
  | _, _ => none

def float (x : Float) : Json :=
  if Decimal.isFinite x then .num (Decimal.Layout.json.write x) else .null

end Roadmap.Json
