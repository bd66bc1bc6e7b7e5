import Roadmap.Json.Workspace
import Roadmap.Proofs.Header.Filled
import Roadmap.Proofs.Json.Record
import Roadmap.Proofs.Workspace.Identity
import Roadmap.Proofs.Workspace.Timestamp

namespace Roadmap

open Json

theorem textual_record_of_texts (entries : List (String × String)) :
    Textual (.record (entries.map fun (key, value) => (key, .text value))) := by
  refine .record fun member among => ?_
  obtain ⟨entry, -, rfl⟩ := List.mem_map.1 among
  exact .text entry.2

namespace Header

theorem json_eq (h : Header) :
    h.json = .record (h.fields.map fun (key, value) => (key, .text value)) := by
  obtain ⟨name, gist, description, createdAt, extra⟩ := h
  cases gist <;> cases description <;> cases createdAt <;> rfl

theorem lookup_filterMap {α : Type} (value? : String → Option α) (keys : List String)
    (name : String) :
    (keys.filterMap fun key => (value? key).map (key, ·)).lookup name =
      if name ∈ keys then value? name else none := by
  induction keys with
  | nil => rfl
  | cons key keys ih =>
    by_cases same : name = key
    · subst same
      cases found : value? name with
      | none => simp [found, ih]
      | some value => simp [found]
    · cases found : value? key with
      | none => simp [found, ih, same]
      | some value => simp [found, ih, same, lookup_cons_eq]

theorem sublist_filterMap {α : Type} (value? : String → Option α) (keys : List String) :
    ((keys.filterMap fun key => (value? key).map (key, ·)).map Prod.fst).Sublist keys := by
  induction keys with
  | nil => exact .slnil
  | cons key keys ih =>
    cases found : value? key with
    | none => simpa [found] using ih.cons key
    | some value => simpa [found] using ih

theorem nodup_fields {h : Header} (apart : h.Apart) : (h.fields.map Prod.fst).Nodup := by
  have known : knownKeys.Nodup := by decide
  rw [fields, List.map_append, List.nodup_append]
  refine ⟨known.sublist (sublist_filterMap h.get? knownKeys), h.extra.distinct, ?_⟩
  intro key member other among same
  obtain ⟨entry, held, rfl⟩ := List.mem_map.1 among
  exact apart entry held (same ▸ (sublist_filterMap h.get? knownKeys).mem member)

theorem lookup_fields {h : Header} (apart : h.Apart) {key : String} (known : key ∈ knownKeys) :
    h.fields.lookup key = h.get? key := by
  have absent : key ∉ h.extra.entries.map Prod.fst := by
    intro member
    obtain ⟨entry, held, rfl⟩ := List.mem_map.1 member
    exact apart entry held known
  rw [fields, List.lookup_append, lookup_filterMap, if_pos known, lookup_of_not_mem absent,
    Option.or_none]

theorem filter_fields {h : Header} (apart : h.Apart) :
    h.fields.filter (fun field => field.1 ∉ knownKeys) = h.extra.entries := by
  have none : (knownKeys.filterMap fun key => (h.get? key).map (key, ·)).filter
      (fun field => field.1 ∉ knownKeys) = [] := by
    rw [List.filter_eq_nil_iff]
    intro field member
    have known := (sublist_filterMap h.get? knownKeys).mem (List.mem_map_of_mem member)
    simpa using known
  have all : h.extra.entries.filter (fun field => field.1 ∉ knownKeys) = h.extra.entries := by
    rw [List.filter_eq_self]
    intro field member
    simpa using apart field member
  rw [fields, List.filter_append, none, all, List.nil_append]

theorem ofMembers?_fields {h : Header} (apart : h.Apart) :
    ofMembers? (h.fields.map fun (key, value) => (key, .text value)) = some h := by
  have names : ((h.fields.map fun (key, value) => (key, Json.text value)).map Prod.fst).Nodup := by
    rw [List.map_map]
    exact nodup_fields apart
  have found : ∀ key ∈ knownKeys,
      member? (h.fields.map fun (key, value) => (key, .text value)) key =
        some ((h.get? key).map .text) := by
    intro key known
    rw [member?_eq_lookup names, lookup_map, lookup_fields apart known]
  have kept : (h.fields.map fun (key, value) => (key, Json.text value)).filter
      (fun member => member.1 ∉ knownKeys) =
        h.extra.entries.map fun (key, value) => (key, .text value) := by
    rw [List.filter_map, ← filter_fields apart]
    rfl
  have others : ((h.fields.map fun (key, value) => (key, Json.text value)).filter
      fun member => member.1 ∉ knownKeys).mapM (fun member => member.2.text?.map (member.1, ·)) =
        some (h.extra.entries.map id) := by
    rw [kept]
    exact mapM_map_of_read fun _ _ => rfl
  rw [List.map_id] at others
  have whole : Fields.ofList h.extra.entries = h.extra := Fields.insertAll_entries h.extra
  refine Option.bind_eq_some_iff.2 ⟨h.extra.entries, others, ?_⟩
  simp only [found "name" (by simp [knownKeys]), found "gist" (by simp [knownKeys]),
    found "description" (by simp [knownKeys]), found "createdAt" (by simp [knownKeys]),
    optional_map_text, whole, Option.bind_eq_bind, Option.bind_some]
  rfl

theorem ofJson?_json {h : Header} (apart : h.Apart) : ofJson? h.json = some h := by
  rw [json_eq]
  exact Option.bind_eq_some_iff.2 ⟨_, namedMembers?_named _, ofMembers?_fields apart⟩

theorem textual_json (h : Header) : Textual h.json := by
  rw [json_eq]
  exact textual_record_of_texts h.fields

end Header

theorem Identity.ofJson?_json (id : Identity) : ofJson? id.json = some id := by
  simp only [ofJson?, json, text, text?, Option.bind_some, parse?_toString]

theorem Timestamp.ofJson?_json (t : Timestamp) : ofJson? t.json = some t := by
  simp only [ofJson?, json, text, text?, Option.bind_some, parse?_toString]

namespace Workspace

theorem textual_json (w : Workspace) : Textual w.json := by
  unfold json
  refine .record fun member among => ?_
  simp only [List.mem_cons, List.not_mem_nil, or_false] at among
  rcases among with rfl | rfl | rfl | rfl
  · exact .text _
  · exact w.header.textual_json
  · exact .text _
  · exact .text _

theorem ofJson?_json {w : Workspace} (apart : w.header.Apart) : ofJson? w.json = some w := by
  have fields : fields? ["id", "frontmatter", "content", "updatedAt"] w.json =
      some [some w.id.json, some w.header.json, some (.text w.content), some w.updatedAt.json] :=
    fields?_record rfl (by decide)
  simp only [ofJson?, fields, required, Identity.ofJson?_json, Header.ofJson?_json apart,
    Timestamp.ofJson?_json, Option.bind_eq_bind, Option.bind_some]
  rfl

end Workspace

namespace StoredCollection

def Apart (stored : StoredCollection) : Prop := ∀ w ∈ stored.workspaces, w.header.Apart

instance (stored : StoredCollection) : Decidable stored.Apart := by unfold Apart; infer_instance

theorem textual_json (stored : StoredCollection) : Textual stored.json := by
  unfold json
  refine .record fun member among => ?_
  simp only [List.mem_cons, List.not_mem_nil, or_false] at among
  rcases among with rfl | rfl
  · refine .arr fun item held => ?_
    obtain ⟨w, -, rfl⟩ := List.mem_map.1 held
    exact w.textual_json
  · exact .text _

theorem ofJson?_json {stored : StoredCollection} (apart : stored.Apart) :
    ofJson? stored.json = some stored := by
  have fields : fields? ["workspaces", "currentId"] stored.json =
      some [some (.arr (stored.workspaces.map Workspace.json)), some stored.currentId.json] :=
    fields?_record rfl (by decide)
  have workspaces : (stored.workspaces.map Workspace.json).mapM Workspace.ofJson? =
      some (stored.workspaces.map id) :=
    mapM_map_of_read fun w member => Workspace.ofJson?_json (apart w member)
  rw [List.map_id] at workspaces
  simp only [ofJson?, fields, required, list?, workspaces, Identity.ofJson?_json,
    Option.bind_eq_bind, Option.bind_some]
  rfl

end StoredCollection

end Roadmap
