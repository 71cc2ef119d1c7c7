import Estree.Decode

namespace Estree

namespace Json

-- A value unless it is null.
def notNull : Json → Option Json
  | .null => none
  | value => some value

theorem notNull_of_ne {value : Json} (h : value ≠ .null) : value.notNull = some value := by
  cases value with
  | null => exact absurd rfl h
  | _ => rfl

theorem notNull_bool (value : Bool) : (bool value).notNull = some (.bool value) := rfl

theorem notNull_string (value : String) : (string value).notNull = some (.string value) := rfl

theorem notNull_array (items : List Json) : (array items).notNull = some (.array items) := rfl

namespace Members

-- The value of a member that is there and not null.
def present (members : Members) (name : String) : Option Json :=
  (members.lookup name).bind notNull

theorem present_cons (name other : String) (value : Json) (members : Members) :
    present ((other, value) :: members) name =
      if name = other then value.notNull else present members name := by
  rw [present, List.lookup_cons]
  by_cases h : name = other
  · simp [h]
  · simp [h, present, beq_false_of_ne h]

end Members

end Json

namespace Fields

variable {α : Type}

-- The members of a node object, where the nodes in them are read without regard to their size.
def reading (members : Json.Members) (read : Json → Except DecodeError α) : Fields α :=
  ⟨members, fun value _ => read value⟩

section Accessors

variable (members : Json.Members) (read : Json → Except DecodeError α) (name : String)

theorem map_val_present? :
    ((reading members read).present? name).map Subtype.val = members.present name := by
  unfold present?
  split
  · rename_i h
    change members.lookup name = none at h
    simp [Json.Members.present, h]
  · rename_i h
    change members.lookup name = some .null at h
    simp [Json.Members.present, h, Json.notNull]
  · rename_i value hne h
    change members.lookup name = some value at h
    simp [Json.Members.present, h, Json.notNull_of_ne hne]

theorem optionalNode_reading :
    (reading members read).optionalNode name = (members.present name).mapM read := by
  rw [← map_val_present? members read, optionalNode]
  cases (reading members read).present? name <;> rfl

theorem node_reading :
    (reading members read).node name =
      match members.present name with
      | none => .error (.missingField name)
      | some value => read value := by
  rw [node, optionalNode_reading]
  cases members.present name with
  | none => rfl
  | some value =>
    change (some <$> read value) >>= _ = read value
    cases read value <;> rfl

theorem optionalNodes_reading :
    (reading members read).optionalNodes name =
      match members.present name with
      | none => .ok none
      | some (.array items) => some <$> items.mapM read
      | some value => .error (.wrongField name "an array of nodes" value.head) := by
  rw [← map_val_present? members read, optionalNodes]
  cases (reading members read).present? name with
  | none => rfl
  | some found =>
    obtain ⟨value, h⟩ := found
    cases value with
    | array items =>
      change (items.attach.mapM fun item => read item.val).map some = some <$> items.mapM read
      rw [List.mapM_subtype (g := read) fun _ _ => rfl, List.unattach_attach]
      rfl
    | _ => rfl

theorem nodes_reading :
    (reading members read).nodes name =
      match members.present name with
      | none => .error (.missingField name)
      | some (.array items) => items.mapM read
      | some value => .error (.wrongField name "an array of nodes" value.head) := by
  rw [nodes, optionalNodes_reading]
  cases members.present name with
  | none => rfl
  | some value =>
    cases value with
    | array items =>
      change (some <$> items.mapM read) >>= _ = items.mapM read
      cases items.mapM read <;> rfl
    | _ => rfl

theorem string_reading :
    (reading members read).string name =
      match members.lookup name with
      | some (.string value) => .ok value
      | some value => .error (.wrongField name "a string" value.head)
      | none => .error (.missingField name) :=
  rfl

theorem flag_reading (default : Bool) :
    (reading members read).flag name default =
      match members.present name with
      | none => .ok default
      | some (.bool value) => .ok value
      | some value => .error (.wrongField name "a boolean" value.head) := by
  rw [← map_val_present? members read, flag]
  cases (reading members read).present? name with
  | none => rfl
  | some found =>
    obtain ⟨value, h⟩ := found
    cases value <;> rfl

theorem optional_reading {β : Type} (ofJson : Json → Except Json.Mismatch β) :
    (reading members read).optional name ofJson =
      ((members.present name).mapM ofJson).mapError .mismatch := by
  rw [← map_val_present? members read, optional]
  cases (reading members read).present? name <;> rfl

theorem required_reading {β : Type} (ofJson : Json → Except Json.Mismatch β) :
    (reading members read).required name ofJson =
      match members.present name with
      | none => .error (.missingField name)
      | some value => (ofJson value).mapError .mismatch := by
  rw [required, optional_reading]
  cases members.present name with
  | none => rfl
  | some value =>
    change (some <$> ofJson value).mapError _ >>= _ = (ofJson value).mapError _
    cases ofJson value <;> rfl

end Accessors

end Fields

-- The node that an object describes, its parts being read one after the other.
theorem Node.ofJson_object (members : Json.Members) :
    Node.ofJson (.object members) =
      (Form.ofObject (.reading members Node.ofJson)).map Node.mk := by
  rw [Node.ofJson]
  rfl

end Estree
