import Roadmap.Calendar.Text

namespace Roadmap

open Calendar

structure DateToken where
  text : String
  deriving DecidableEq, Repr

inductive Bound where
  | start
  | finish
  deriving DecidableEq, Repr

namespace DateToken

def isMonthText : List Char → Bool
  | [a, b, c, d, dash, e, f] => [a, b, c, d, e, f].all Char.isDigit && dash = '-'
  | _ => false

def isMonth (t : DateToken) : Bool := isMonthText t.text.toList

/-- The month that a month token counts to; numbers outside `01..12` carry into other years. -/
def namedMonth (text : List Char) : Month :=
  Month.ofYear (Decimal.ofDigits (text.take 4)) (Decimal.ofDigits (text.drop 5))

def normalize (t : DateToken) (bound : Bound) : DateToken :=
  let text := t.text.toList
  if isMonthText text then
    let number :=
      match bound with
      | .start => 1
      | .finish => (namedMonth text).last?.elim 1 Day.number
    ⟨String.ofList (text ++ '-' :: padded 2 number)⟩
  else t

def day? (t : DateToken) (bound : Bound) : Option Day :=
  Day.parse? (t.normalize bound).text.toList

def ofDay (d : Day) : DateToken := ⟨d.toString⟩

/-- The day after the last day of a token; a token that has none is its own successor. -/
def next (t : DateToken) : DateToken :=
  match (t.day? .finish).bind Day.next? with
  | some day => ofDay day
  | none => t

def sorted (tokens : List DateToken) : List DateToken :=
  tokens.mergeSort fun a b => decide (a.text ≤ b.text)

end DateToken

end Roadmap
