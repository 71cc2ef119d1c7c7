import Estree.Proofs.Schema
import Mathlib

namespace Estree

-- No name is read twice of one object, and the type is none of them.
theorem Kind.nodup_fields (kind : Kind) : ("type" :: kind.fields.map Prod.fst).Nodup := by
  cases kind <;> simp [Kind.fields]

theorem fieldsOfType_name (kind : Kind) : fieldsOfType kind.name = kind.fields := by
  rw [fieldsOfType, Kind.ofName?_name]

theorem nodup_fieldsOfType (type : String) :
    ("type" :: (fieldsOfType type).map Prod.fst).Nodup := by
  unfold fieldsOfType
  split
  · exact Kind.nodup_fields _
  · simp

namespace Json.Members

-- The type that an object names.
def type? (members : Members) : Option String :=
  match members.lookup "type" with
  | some (.string type) => some type
  | _ => none

-- The members that are read of an object besides its type, by the type that it names.
def fields (members : Members) : List (String × FieldType) :=
  (members.type?.map fieldsOfType).getD []

theorem type?_eq_some_iff {members : Members} {type : String} :
    members.type? = some type ↔ members.lookup "type" = some (.string type) := by
  unfold type?
  split
  · rename_i found hlookup
    simp [hlookup]
  · rename_i hother
    simp only [reduceCtorEq, false_iff]
    exact hother type

theorem fields_of_type? {members : Members} {type : String} (h : members.type? = some type) :
    members.fields = fieldsOfType type := by
  rw [fields, h]
  rfl

theorem nodup_fields (members : Members) : ("type" :: members.fields.map Prod.fst).Nodup := by
  unfold fields
  cases members.type? with
  | none => simp
  | some type => exact nodup_fieldsOfType type

theorem ne_type_of_mem_fields {members : Members} {field : String × FieldType}
    (h : field ∈ members.fields) : field.1 ≠ "type" := by
  intro htype
  apply (List.nodup_cons.mp members.nodup_fields).1
  rw [← htype]
  exact List.mem_map_of_mem h

-- A member is read in one way only.
theorem eq_of_mem_fields {members : Members} {field other : String × FieldType}
    (h : field ∈ members.fields) (hother : other ∈ members.fields) (hname : field.1 = other.1) :
    field = other :=
  List.inj_on_of_nodup_map (List.nodup_cons.mp members.nodup_fields).2 h hother hname

end Json.Members

end Estree
