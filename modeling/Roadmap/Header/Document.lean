import Roadmap.Header.Basic
import Roadmap.Header.Value
import Roadmap.Text.Split

namespace Roadmap

open Text

structure Document where
  header : Option Header
  content : String
  deriving DecidableEq

namespace Document

def delimiter : List Char := "---".toList

def isDelimiter (line : List Char) : Bool := trim line = delimiter

def cutLines : List (List Char) → Option (List (List Char) × List (List Char))
  | [] => none
  | line :: rest =>
    if isDelimiter line then some ([], rest)
    else (cutLines rest).map fun (before, after) => (line :: before, after)

def field? (line : List Char) : Option (String × String) :=
  (cut ':' (trim line)).map fun (key, value) =>
    (String.ofList (trim key), String.ofList (Header.Value.read (trim value)))

def header? (lines : List (List Char)) : Option Header :=
  let header := (lines.filterMap field?).foldl (fun h (key, value) => h.set key value) (.named "")
  if header.name = "" then none else some header

/-- Without a line that reads `---`, or without a name before it, a text is all content. -/
def parse (text : String) : Document :=
  let parts? := do
    let (before, after) ← cutLines (lines text.toList)
    let header ← header? before
    return (header, after)
  match parts? with
  | some (header, after) => ⟨some header, String.ofList after.flatten⟩
  | none => ⟨none, text⟩

def name? (text : String) : Option String := (parse text).header.map Header.name

end Document

namespace Header

def writeField (key value : String) : List Char :=
  key.toList ++ ": ".toList ++ Value.write value.toList

/-- The header and the content below it. A header with nothing to write leaves the content alone. -/
def document (h : Header) (content : String) : String :=
  match h.writtenFields.map fun (key, value) => writeField key value with
  | [] => content
  | first :: others =>
    let written := joined ['\n'] (first :: others)
    String.ofList (written ++ '\n' :: Document.delimiter ++ ['\n']) ++ content

end Header

end Roadmap
