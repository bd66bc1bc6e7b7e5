import Roadmap.Decimal.Shortest

namespace Roadmap.Decimal

structure Layout where
  isPositional : Int → Bool
  wholeSuffix : String
  tie : Tie

namespace Layout

def plain : Layout := ⟨fun _ => true, "", .up⟩

/-- Exponents from `1e+16` up and below `1e-5`; whole numbers end in `.0`. -/
def json : Layout := ⟨fun power => -5 ≤ power && power < 16, ".0", .even⟩

end Layout

def positional (wholeSuffix : String) (d : Scientific) : List Char :=
  let digits := Nat.toDigits 10 d.digits
  if 0 ≤ d.exponent then digits ++ List.replicate d.exponent.toNat '0' ++ wholeSuffix.toList
  else
    let places := (-d.exponent).toNat
    let padded := List.replicate (places + 1 - digits.length) '0' ++ digits
    padded.take (padded.length - places) ++ '.' :: padded.drop (padded.length - places)

def exponential (d : Scientific) (power : Int) : List Char :=
  let sign := if power < 0 then '-' else '+'
  let mantissa :=
    match Nat.toDigits 10 d.digits with
    | first :: second :: others => first :: '.' :: second :: others
    | single => single
  mantissa ++ 'e' :: sign :: Nat.toDigits 10 power.natAbs

def Layout.magnitude (layout : Layout) (n : Nat) : List Char :=
  let d := shortest layout.tie n
  let power := (Nat.toDigits 10 d.digits).length + d.exponent - 1
  if layout.isPositional power then positional layout.wholeSuffix d else exponential d power

def Layout.write (layout : Layout) (x : Float) : List Char :=
  if !isNumber x then "NaN".toList
  else
    let text := if isFinite x then layout.magnitude (pattern x) else "inf".toList
    if isNegative x then '-' :: text else text

example : String.ofList (Layout.plain.write 0.3) = "0.3" := by decide +kernel
example : String.ofList (Layout.plain.write 1e21) = "1000000000000000000000" := by decide +kernel
example : String.ofList (Layout.plain.write (-0.0)) = "-0" := by decide +kernel
example : String.ofList (Layout.plain.write 1e-7) = "0.0000001" := by decide +kernel
example : String.ofList (Layout.json.write 1) = "1.0" := by decide +kernel
example : String.ofList (Layout.json.write (-0.0)) = "-0.0" := by decide +kernel
example : String.ofList (Layout.json.write 1e16) = "1e+16" := by decide +kernel
example : String.ofList (Layout.json.write 1.0000000000123456e16) = "1.0000000000123456e+16" := by
  decide +kernel
example : String.ofList (Layout.json.write 1e-5) = "0.00001" := by decide +kernel
example : String.ofList (Layout.json.write 1.5e-6) = "1.5e-6" := by decide +kernel

end Roadmap.Decimal
