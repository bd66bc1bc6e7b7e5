import Roadmap.Json.Value
import Roadmap.Json.Number

namespace Roadmap.Json

def text? : Json → Option String
  | .str text => text
  | _ => none

def bool? : Json → Option Bool
  | .bool value => some value
  | _ => none

def float? : Json → Option Float
  | .num literal => (Literal.ofText? literal).bind Literal.float?
  | _ => none

def integer? (least greatest : Int) : Json → Option Int
  | .num literal =>
    ((Literal.ofText? literal).bind Literal.integer?).filter fun n => least ≤ n && n ≤ greatest
  | _ => none

def natural? (bits : Nat) (value : Json) : Option Nat :=
  (integer? 0 (Decimal.pow2 bits - 1) value).map Int.toNat

def signed? (bits : Nat) (value : Json) : Option Int :=
  integer? (-Decimal.pow2 (bits - 1)) (Decimal.pow2 (bits - 1) - 1) value

def list? {α : Type} (item? : Json → Option α) : Json → Option (List α)
  | .arr items => items.mapM item?
  | _ => none

def namedMembers? (members : List (Option String × Json)) : Option (List (String × Json)) :=
  members.mapM fun (name, value) => name.map (·, value)

/-- The value of a member, or `none` inside if there is none; a repeated member is refused. -/
def member? (members : List (String × Json)) (name : String) : Option (Option Json) :=
  match members.filter (·.1 = name) with
  | [] => some none
  | [(_, value)] => some (some value)
  | _ => none

def objectFields? (names : List String) (members : List (Option String × Json)) :
    Option (List (Option Json)) := do
  let members ← namedMembers? members
  names.mapM (member? members)

def fields? (names : List String) : Json → Option (List (Option Json))
  | .obj members => objectFields? names members
  | .arr items => if items.length = names.length then some (items.map some) else none
  | _ => none

def required {α : Type} (value? : Json → Option α) : Option Json → Option α
  | none => none
  | some value => value? value

def optional {α : Type} (value? : Json → Option α) : Option Json → Option (Option α)
  | none => some none
  | some .null => some none
  | some value => (value? value).map some

def orElse {α : Type} (default : α) (value? : Json → Option α) : Option Json → Option α
  | none => some default
  | some value => value? value

def caseName? : Json → Option String
  | .str text => text
  | .obj [(name, .null)] => name
  | _ => none

def orNull {α : Type} (value : α → Json) : Option α → Json
  | none => .null
  | some a => value a

end Roadmap.Json
