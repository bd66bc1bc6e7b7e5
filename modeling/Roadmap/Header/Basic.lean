import Roadmap.Header.Fields

namespace Roadmap

structure Header where
  name : String
  gist : Option String
  description : Option String
  createdAt : Option String
  extra : Fields
  deriving DecidableEq

namespace Header

def named (name : String) : Header := ⟨name, none, none, none, ∅⟩

def knownKeys : List String := ["name", "gist", "description", "createdAt"]

def nonEmpty? (value : String) : Option String := if value = "" then none else some value

def get? (h : Header) (key : String) : Option String :=
  if key = "name" then some h.name
  else if key = "gist" then h.gist
  else if key = "description" then h.description
  else if key = "createdAt" then h.createdAt
  else h.extra.get? key

/-- Sets a field. An empty value removes a known field other than the name. -/
def set (h : Header) (key value : String) : Header :=
  if key = "name" then { h with name := value }
  else if key = "gist" then { h with gist := nonEmpty? value }
  else if key = "description" then { h with description := nonEmpty? value }
  else if key = "createdAt" then { h with createdAt := nonEmpty? value }
  else { h with extra := h.extra.insert key value }

def withGist (h : Header) (value : String) : Header := { h with gist := some value }

def withDescription (h : Header) (value : String) : Header := { h with description := some value }

def withCreatedAt (h : Header) (value : String) : Header := { h with createdAt := some value }

def fields (h : Header) : List (String × String) :=
  (knownKeys.filterMap fun key => (h.get? key).map (key, ·)) ++ h.extra.entries

def writtenFields (h : Header) : List (String × String) :=
  h.fields.filter fun (_, value) => value ≠ ""

def sameFields (a b : Header) : Bool :=
  a.name = b.name && a.gist = b.gist && a.description = b.description
    && a.createdAt = b.createdAt && a.extra.sameEntries b.extra

end Header

end Roadmap
