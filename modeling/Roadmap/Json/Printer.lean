import Roadmap.Json.Quoted
import Roadmap.Json.Value

namespace Roadmap.Json

/-- `none` for one line, else the depth that lines are indented to. -/
abbrev Indent := Option Nat

def lineBreak : Indent → List Char
  | none => []
  | some depth => '\n' :: List.replicate (2 * depth) ' '

def deeper (indent : Indent) : Indent := indent.map (· + 1)

def colon : Indent → List Char
  | none => [':']
  | some _ => [':', ' ']

def writeName (name : Option String) : List Char := quote (name.getD "")

mutual

def write (indent : Indent) : Json → List Char
  | .null => "null".toList
  | .bool true => "true".toList
  | .bool false => "false".toList
  | .num literal => literal
  | .str text => writeName text
  | .arr [] => "[]".toList
  | .arr (first :: others) =>
    '[' :: lineBreak (deeper indent) ++ write (deeper indent) first
      ++ writeItems (deeper indent) others ++ lineBreak indent ++ [']']
  | .obj [] => "{}".toList
  | .obj ((name, first) :: others) =>
    '{' :: lineBreak (deeper indent) ++ writeName name ++ colon indent
      ++ write (deeper indent) first ++ writeMembers (deeper indent) others
      ++ lineBreak indent ++ ['}']

def writeItems (indent : Indent) : List Json → List Char
  | [] => []
  | item :: rest => ',' :: lineBreak indent ++ write indent item ++ writeItems indent rest

def writeMembers (indent : Indent) : List (Option String × Json) → List Char
  | [] => []
  | (name, value) :: rest =>
    ',' :: lineBreak indent ++ writeName name ++ colon indent ++ write indent value
      ++ writeMembers indent rest

end

def compact (value : Json) : String := String.ofList (write none value)

def pretty (value : Json) : String := String.ofList (write (some 0) value)

end Roadmap.Json
