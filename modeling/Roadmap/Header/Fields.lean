namespace Roadmap

/-- Puts a value to a name: in its place, or at the end. -/
def putEntry (key value : String) : List (String × String) → List (String × String)
  | [] => [(key, value)]
  | (name, old) :: rest =>
    if name = key then (key, value) :: rest else (name, old) :: putEntry key value rest

theorem keys_putEntry (key value : String) (entries : List (String × String)) :
    (putEntry key value entries).map Prod.fst =
      if key ∈ entries.map Prod.fst then entries.map Prod.fst
      else entries.map Prod.fst ++ [key] := by
  induction entries with
  | nil => simp [putEntry]
  | cons entry rest ih =>
    obtain ⟨name, old⟩ := entry
    simp only [putEntry, List.map_cons, List.mem_cons]
    by_cases same : name = key
    · simp [same]
    · simp only [same, if_false, List.map_cons, ih, Ne.symm same, false_or]
      split <;> simp

theorem lookup_putEntry (key value name : String) (entries : List (String × String)) :
    (putEntry key value entries).lookup name =
      if name = key then some value else entries.lookup name := by
  induction entries with
  | nil =>
    simp only [putEntry, List.lookup_cons, List.lookup_nil]
    split <;> simp_all
  | cons entry rest ih =>
    obtain ⟨other, old⟩ := entry
    simp only [putEntry]
    split
    · next same =>
      subst same
      simp only [List.lookup_cons]
      split <;> simp_all
    · next differ =>
      simp only [List.lookup_cons, ih]
      split <;> simp_all

structure Fields where
  entries : List (String × String)
  distinct : (entries.map Prod.fst).Nodup
  deriving DecidableEq

namespace Fields

def empty : Fields := ⟨[], List.nodup_nil⟩

instance : EmptyCollection Fields := ⟨empty⟩

def get? (fields : Fields) (key : String) : Option String := fields.entries.lookup key

def insert (fields : Fields) (key value : String) : Fields where
  entries := putEntry key value fields.entries
  distinct := by
    rw [keys_putEntry]
    split
    · exact fields.distinct
    · next absent =>
      rw [List.nodup_append]
      refine ⟨fields.distinct, by simp, ?_⟩
      intro name member other single same
      rw [List.mem_singleton] at single
      exact absent (single ▸ same ▸ member)

def ofList (entries : List (String × String)) : Fields :=
  entries.foldl (fun fields (key, value) => fields.insert key value) empty

@[simp] theorem get?_insert (fields : Fields) (key value name : String) :
    (fields.insert key value).get? name = if name = key then some value else fields.get? name :=
  lookup_putEntry key value name fields.entries

def sameEntries (a b : Fields) : Bool :=
  a.entries.length = b.entries.length && a.entries.all fun (key, value) => b.get? key = some value

end Fields

end Roadmap
