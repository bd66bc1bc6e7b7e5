import Roadmap.Json.Number
import Roadmap.Json.Quoted

namespace Roadmap.Json

def isSpace (c : Char) : Bool := c = ' ' || c = '\t' || c = '\n' || c = '\r'

def skipSpace (text : List Char) : List Char := text.dropWhile isSpace

def takeWord? (expected : List Char) (text : List Char) : Option (List Char) :=
  if expected.isPrefixOf text then some (text.drop expected.length) else none

def takeNumber? (text : List Char) : Option (Json × List Char) :=
  (takeLiteral? text).map fun (_, rest) => (.num (text.take (text.length - rest.length)), rest)

mutual

/-- A value after any space. The fuel bounds the depth and the number of items. -/
def takeValue? : Nat → List Char → Option (Json × List Char)
  | 0, _ => none
  | fuel + 1, text =>
    match skipSpace text with
    | [] => none
    | '"' :: rest => (takeString? rest).map fun (text, rest) => (.str text, rest)
    | '[' :: rest =>
      match skipSpace rest with
      | ']' :: rest => some (.arr [], rest)
      | rest => (takeItems? fuel rest).map fun (items, rest) => (.arr items, rest)
    | '{' :: rest =>
      match skipSpace rest with
      | '}' :: rest => some (.obj [], rest)
      | rest => (takeMembers? fuel rest).map fun (members, rest) => (.obj members, rest)
    | 'n' :: rest => (takeWord? "ull".toList rest).map fun rest => (.null, rest)
    | 't' :: rest => (takeWord? "rue".toList rest).map fun rest => (.bool true, rest)
    | 'f' :: rest => (takeWord? "alse".toList rest).map fun rest => (.bool false, rest)
    | other => takeNumber? other

def takeItems? : Nat → List Char → Option (List Json × List Char)
  | 0, _ => none
  | fuel + 1, text => do
    let (first, rest) ← takeValue? fuel text
    match skipSpace rest with
    | ']' :: rest => return ([first], rest)
    | ',' :: rest =>
      let (others, rest) ← takeItems? fuel rest
      return (first :: others, rest)
    | _ => none

def takeMembers? : Nat → List Char → Option (List (Option String × Json) × List Char)
  | 0, _ => none
  | fuel + 1, text => do
    let (name, rest) ←
      match skipSpace text with
      | '"' :: rest => takeString? rest
      | _ => none
    let (value, rest) ←
      match skipSpace rest with
      | ':' :: rest => takeValue? fuel rest
      | _ => none
    match skipSpace rest with
    | '}' :: rest => return ([(name, value)], rest)
    | ',' :: rest =>
      let (others, rest) ← takeMembers? fuel rest
      return ((name, value) :: others, rest)
    | _ => none

end

/-- Each step of the reader takes a character or opens a list, so twice the length is enough. -/
def readChars? (text : List Char) : Option Json :=
  match takeValue? (2 * text.length + 2) text with
  | some (value, rest) => if (skipSpace rest).isEmpty then some value else none
  | none => none

def read? (text : String) : Option Json := readChars? text.toList

end Roadmap.Json
