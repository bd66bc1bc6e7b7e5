namespace Roadmap

def numbered (base : String) : Nat → String
  | 0 => base
  | n + 1 => base ++ " (" ++ Nat.repr (n + 1) ++ ")"

/-- The first of the numbered names that does not exist; one more than exist are enough to try. -/
def uniqueName (base : String) (existing : List String) : String :=
  (((List.range (existing.length + 1)).map (numbered base)).find? (· ∉ existing)).getD base

end Roadmap
