import Mathlib.Data.List.Nodup
import Roadmap.Header.Basic

namespace Roadmap

theorem putEntry_of_not_mem {key : String} {entries : List (String × String)}
    (absent : key ∉ entries.map Prod.fst) (value : String) :
    putEntry key value entries = entries ++ [(key, value)] := by
  induction entries with
  | nil => rfl
  | cons entry rest ih =>
    rw [List.map_cons, List.mem_cons, not_or] at absent
    rw [putEntry, if_neg (Ne.symm absent.1), ih absent.2, List.cons_append]

namespace Fields

def filled (fields : Fields) : Fields where
  entries := fields.entries.filter fun (_, value) => value ≠ ""
  distinct := fields.distinct.sublist (List.filter_sublist.map _)

theorem mem_of_mem_filled {fields : Fields} {entry : String × String}
    (member : entry ∈ fields.filled.entries) : entry ∈ fields.entries :=
  List.mem_of_mem_filter member

theorem filled_filled (fields : Fields) : fields.filled.filled = fields.filled := by
  simp [filled, List.filter_filter]

def insertAll (fields : Fields) (entries : List (String × String)) : Fields :=
  entries.foldl (fun fields (key, value) => fields.insert key value) fields

theorem insertAll_cons (fields : Fields) (entry : String × String) (rest : List (String × String)) :
    fields.insertAll (entry :: rest) = (fields.insert entry.1 entry.2).insertAll rest := rfl

theorem entries_insertAll {entries : List (String × String)} {fields : Fields}
    (distinct : ((fields.entries ++ entries).map Prod.fst).Nodup) :
    (fields.insertAll entries).entries = fields.entries ++ entries := by
  induction entries generalizing fields with
  | nil => rw [List.append_nil]; rfl
  | cons entry rest ih =>
    have absent : entry.1 ∉ fields.entries.map Prod.fst := by
      intro member
      rw [List.map_append, List.map_cons, List.nodup_append] at distinct
      exact distinct.2.2 entry.1 member entry.1 List.mem_cons_self rfl
    have appended : (fields.insert entry.1 entry.2).entries = fields.entries ++ [entry] :=
      putEntry_of_not_mem absent entry.2
    rw [insertAll_cons, ih, appended, List.append_assoc, List.singleton_append]
    rwa [appended, List.append_assoc, List.singleton_append]

theorem insertAll_entries (fields : Fields) : (∅ : Fields).insertAll fields.entries = fields := by
  have distinct : (((∅ : Fields).entries ++ fields.entries).map Prod.fst).Nodup := fields.distinct
  have same := entries_insertAll distinct
  cases fields
  exact (Fields.mk.injEq ..).mpr same

end Fields

namespace Header

def Apart (h : Header) : Prop := ∀ entry ∈ h.extra.entries, entry.1 ∉ knownKeys

instance (h : Header) : Decidable h.Apart := by unfold Apart; infer_instance

def filled (h : Header) : Header :=
  ⟨h.name, h.gist.bind nonEmpty?, h.description.bind nonEmpty?, h.createdAt.bind nonEmpty?,
    h.extra.filled⟩

def written (key : String) (value : Option String) : List (String × String) :=
  ((value.bind nonEmpty?).map (key, ·)).toList

def setAll (h : Header) (fields : List (String × String)) : Header :=
  fields.foldl (fun h (key, value) => h.set key value) h

@[simp] theorem setAll_nil (h : Header) : h.setAll [] = h := rfl

@[simp] theorem setAll_cons (h : Header) (field : String × String) (rest : List (String × String)) :
    h.setAll (field :: rest) = (h.set field.1 field.2).setAll rest := rfl

theorem setAll_append (h : Header) (front back : List (String × String)) :
    h.setAll (front ++ back) = (h.setAll front).setAll back :=
  List.foldl_append

theorem bind_nonEmpty? (value : Option String) :
    (value.bind nonEmpty?).bind nonEmpty? = value.bind nonEmpty? := by
  cases value with
  | none => rfl
  | some value =>
    by_cases empty : value = "" <;> simp [nonEmpty?, empty]

theorem written_bind (key : String) (value : Option String) :
    written key (value.bind nonEmpty?) = written key value := by
  rw [written, bind_nonEmpty?, written]

theorem filter_toList (key : String) (value : Option String) :
    (value.map (key, ·)).toList.filter (fun (_, value) => value ≠ "") = written key value := by
  cases value with
  | none => rfl
  | some value =>
    by_cases empty : value = "" <;> simp [written, nonEmpty?, empty]

theorem writtenFields_eq (h : Header) :
    h.writtenFields =
      (knownKeys.flatMap fun key => written key (h.get? key)) ++ h.extra.filled.entries := by
  rw [writtenFields, fields, List.filter_append, List.filterMap_eq_flatMap_toList,
    List.filter_flatMap]
  simp only [filter_toList]
  rfl

theorem writtenFields_filled (h : Header) : h.filled.writtenFields = h.writtenFields := by
  simp [writtenFields_eq, knownKeys, get?, filled, written_bind, Fields.filled_filled]

theorem setAll_written {h : Header} {key : String} (put : Option String → Header)
    (kept : ∀ text, text ≠ "" → h.set key text = put (some text)) (gone : h = put none)
    (value : Option String) : h.setAll (written key value) = put (value.bind nonEmpty?) := by
  cases value with
  | none => exact gone
  | some text =>
    by_cases empty : text = ""
    · rw [empty]
      exact gone
    · have here : (some text).bind nonEmpty? = some text := if_neg empty
      rw [written, here]
      exact kept text empty

theorem setAll_known (h : Header) :
    (named "").setAll (knownKeys.flatMap fun key => written key (h.get? key)) =
      { h.filled with extra := ∅ } := by
  obtain ⟨name, gist, description, createdAt, extra⟩ := h
  -- One known field after the other, each on top of those that are set by then.
  have first : (named "").setAll (written "name" (some name)) = named name := by
    have put : (named "").setAll (written "name" (some name)) =
        named (((some name).bind nonEmpty?).getD "") :=
      setAll_written (fun value => named (value.getD "")) (fun _ _ => rfl) rfl (some name)
    rw [put]
    by_cases empty : name = ""
    · rw [empty]
      rfl
    · rw [Option.bind_some, nonEmpty?, if_neg empty]
      rfl
  have second : (named name).setAll (written "gist" gist) =
      { named name with gist := gist.bind nonEmpty? } :=
    setAll_written (fun value => { named name with gist := value })
      (fun text nonempty => by simp [set, nonEmpty?, nonempty]) rfl gist
  have third : Header.setAll ⟨name, gist.bind nonEmpty?, none, none, ∅⟩
      (written "description" description) =
        ⟨name, gist.bind nonEmpty?, description.bind nonEmpty?, none, ∅⟩ :=
    setAll_written (fun value => ⟨name, gist.bind nonEmpty?, value, none, ∅⟩)
      (fun text nonempty => by simp [set, nonEmpty?, nonempty]) rfl description
  have fourth : Header.setAll ⟨name, gist.bind nonEmpty?, description.bind nonEmpty?, none, ∅⟩
      (written "createdAt" createdAt) =
        ⟨name, gist.bind nonEmpty?, description.bind nonEmpty?, createdAt.bind nonEmpty?, ∅⟩ :=
    setAll_written (fun value => ⟨name, gist.bind nonEmpty?, description.bind nonEmpty?, value, ∅⟩)
      (fun text nonempty => by simp [set, nonEmpty?, nonempty]) rfl createdAt
  calc (named "").setAll (knownKeys.flatMap fun key =>
        written key (Header.get? ⟨name, gist, description, createdAt, extra⟩ key))
    _ = (((((named "").setAll (written "name" (some name))).setAll (written "gist" gist)).setAll
          (written "description" description)).setAll (written "createdAt" createdAt)) := by
      simp only [← setAll_append]
      simp [knownKeys, get?]
    _ = _ := by
      rw [first, second, named, third, fourth]
      rfl

theorem setAll_extra {entries : List (String × String)}
    (others : ∀ entry ∈ entries, entry.1 ∉ knownKeys) (h : Header) :
    h.setAll entries = { h with extra := h.extra.insertAll entries } := by
  induction entries generalizing h with
  | nil => rfl
  | cons entry rest ih =>
    have other := others entry List.mem_cons_self
    simp only [knownKeys, List.mem_cons, List.not_mem_nil, or_false, not_or] at other
    have put : h.set entry.1 entry.2 = { h with extra := h.extra.insert entry.1 entry.2 } := by
      simp [set, other]
    rw [setAll_cons, put, ih fun entry member => others entry (List.mem_cons_of_mem _ member)]
    rfl

/-- Setting the fields that were written gives the header back, without its empty values. -/
theorem setAll_writtenFields {h : Header} (apart : h.Apart) :
    (named "").setAll h.writtenFields = h.filled := by
  rw [writtenFields_eq, setAll_append, setAll_known, setAll_extra]
  · rw [Fields.insertAll_entries]
    rfl
  · exact fun entry member => apart entry (Fields.mem_of_mem_filled member)

end Header

end Roadmap
