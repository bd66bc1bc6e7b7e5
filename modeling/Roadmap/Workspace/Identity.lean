import Roadmap.Json.Quoted

namespace Roadmap

structure Identity where
  digits : List (Fin 16)
  length_eq : digits.length = 32
  deriving DecidableEq

namespace Identity

def nil : Identity := ⟨List.replicate 32 0, by simp⟩

def ofNat (n : Nat) : Identity :=
  ⟨(List.range 32).map fun i => Fin.ofNat 16 (n / Nat.pow 16 (31 - i)), by simp⟩

def groupLengths : List Nat := [8, 4, 4, 4, 12]

def groups {α : Type} : List Nat → List α → List (List α)
  | [], _ => []
  | n :: lengths, items => items.take n :: groups lengths (items.drop n)

def write (id : Identity) : List Char :=
  List.intercalate ['-'] (groups groupLengths (id.digits.map fun d => Nat.digitChar d.val))

protected def toString (id : Identity) : String := String.ofList id.write

def ofDigits? (text : List Char) : Option Identity := do
  let digits ← text.mapM fun c => (Json.hexDigit? c).map (Fin.ofNat 16)
  if h : digits.length = 32 then some ⟨digits, h⟩ else none

def ofGroups? (text : List Char) : Option Identity :=
  let parts := text.splitOn '-'
  if parts.map List.length = groupLengths then ofDigits? parts.flatten else none

/-- Accepts the groups alone, in braces or after `urn:uuid:`, and the digits without dashes. -/
def parse? (text : String) : Option Identity :=
  let chars := text.toList
  let scheme := "urn:uuid:".toList
  if chars.length = 32 then ofDigits? chars
  else if chars.length = 38 ∧ chars.head? = some '{' ∧ chars.getLast? = some '}' then
    ofGroups? (chars.drop 1).dropLast
  else if chars.length = 45 ∧ (chars.take scheme.length).map Char.toLower = scheme then
    ofGroups? (chars.drop scheme.length)
  else ofGroups? chars

end Identity

end Roadmap
