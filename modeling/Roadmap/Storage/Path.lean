import Roadmap.Text.Split

namespace Roadmap

/-- What stands between the slashes. A path is followed step by step, so `a/../b` leads nowhere when
there is no `a`. -/
structure Path where
  parts : List String
  /-- The most bytes that it may have. -/
  room : Nat
  deriving DecidableEq, Repr

namespace Path

inductive Step where
  | stay
  | up
  | into (name : String)
  deriving DecidableEq, Repr

def Step.ofPart (part : String) : Step :=
  if part = "" ∨ part = "." then .stay else if part = ".." then .up else .into part

/-- Of the 4095 bytes of a whole path a root of 30 bytes and its slash leave 4064. -/
def ofString (text : String) (room : Nat := 4064) : Path :=
  ⟨(Text.pieces '/' text.toList).map String.ofList, room⟩

def steps (path : Path) : List Step := path.parts.map Step.ofPart

def length (path : Path) : Nat :=
  path.parts.foldl (fun bytes part => bytes + part.utf8ByteSize) (path.parts.length - 1)

def nameLimit : Nat := 255

def isName (name : String) : Bool := name.utf8ByteSize ≤ nameLimit

def isUsable (path : Path) : Bool :=
  path.length ≤ path.room && path.parts.all fun part => '\x00' ∉ part.toList

def trimmed (path : Path) : Path :=
  ⟨(path.parts.reverse.dropWhile fun part => Step.ofPart part = .stay).reverse, path.room⟩

def parent (path : Path) : Path := trimmed ⟨path.trimmed.parts.dropLast, path.room⟩

/-- The name that the path ends in; one that ends in a slash or in dots alone has none. -/
def fileName? (path : Path) : Option String :=
  match path.steps.getLast? with
  | some (.into name) => some name
  | _ => none

end Path

end Roadmap
