import Roadmap.Json.Record
import Roadmap.Proofs.Entries
import Roadmap.Proofs.Json.RoundTrip

namespace Roadmap

theorem mapM_map_of_read {α β γ : Type} {read : β → Option γ} {write : α → β} {meaning : α → γ}
    {items : List α} (back : ∀ item ∈ items, read (write item) = some (meaning item)) :
    (items.map write).mapM read = some (items.map meaning) := by
  induction items with
  | nil => rfl
  | cons item items ih =>
    have later := ih fun other member => back other (List.mem_cons_of_mem _ member)
    rw [List.map_cons, List.mapM_cons, back item List.mem_cons_self, later]
    rfl

namespace Json

theorem namedMembers?_named (members : List (String × Json)) :
    namedMembers? (members.map named) = some members := by
  have back : namedMembers? (members.map named) = some (members.map id) :=
    mapM_map_of_read fun _ _ => rfl
  rwa [List.map_id] at back

theorem member?_eq_lookup {members : List (String × Json)}
    (distinct : (members.map Prod.fst).Nodup) (name : String) :
    member? members name = some (members.lookup name) := by
  have among : members.filter (·.1 = name) = (members.lookup name).toList.map (name, ·) := by
    induction members with
    | nil => rfl
    | cons first rest ih =>
      rw [List.map_cons, List.nodup_cons] at distinct
      rw [List.filter_cons, lookup_cons_eq, ih distinct.2]
      by_cases same : first.1 = name
      · subst same
        simp [lookup_of_not_mem distinct.1]
      · simp [same, Ne.symm same]
  rw [member?, among]
  cases members.lookup name with
  | none => rfl
  | some value => rfl

theorem fields?_record {members : List (String × Json)} {names : List String}
    (own : members.map Prod.fst = names) (distinct : names.Nodup) :
    fields? names (record members) = some (members.map fun member => some member.2) := by
  subst own
  have asked : (members.map Prod.fst).mapM (member? members) =
      some (members.map fun member => some member.2) :=
    mapM_map_of_read fun member among => by
      rw [member?_eq_lookup distinct, lookup_of_mem distinct among]
  exact Option.bind_eq_some_iff.2 ⟨members, namedMembers?_named members, asked⟩

theorem optional_map_text (value : Option String) :
    optional text? (value.map text) = some value := by
  cases value with
  | none => rfl
  | some value => rfl

end Json

end Roadmap
