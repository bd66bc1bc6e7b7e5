namespace Roadmap

/-- A string is `none` if half a surrogate pair in it spells no text. -/
inductive Json where
  | null
  | bool (value : Bool)
  | num (literal : List Char)
  | str (text : Option String)
  | arr (items : List Json)
  | obj (members : List (Option String × Json))

namespace Json

def text (s : String) : Json := .str (some s)

def record (members : List (String × Json)) : Json :=
  .obj (members.map fun (name, value) => (some name, value))

def natural (n : Nat) : Json := .num (Nat.toDigits 10 n)

def integer (n : Int) : Json :=
  .num (if n < 0 then '-' :: Nat.toDigits 10 n.natAbs else Nat.toDigits 10 n.natAbs)

end Json

end Roadmap
