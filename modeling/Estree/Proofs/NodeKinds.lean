import Estree.Proofs.ExactReading
import Estree.Proofs.NodeObjects
import Estree.Proofs.Refusals

namespace Estree

-- The items of an array.
def Json.items : Json → List Json
  | .array items => items
  | _ => []

-- What is to be nodes in the value of a member.
def FieldType.parts : FieldType → Json → List Json
  | .node, value | .optionalNode, value => [value]
  | .nodes, value | .optionalNodes, value => value.items
  | _, _ => []

namespace Json

-- What is to be nodes in a member of an object. A null counts as no member.
def Members.partsOf (members : Members) (field : String × FieldType) : List Json :=
  (members.present field.1).toList.flatMap field.2.parts

-- What is to be nodes in an object, in source order.
def parts : Json → List Json
  | .object members => (Members.fields members).flatMap (Members.partsOf members)
  | _ => []

theorem Members.partsOf_of_none {members : Members} {name : String}
    (h : members.present name = none) (type : FieldType) : members.partsOf (name, type) = [] := by
  rw [partsOf, h]
  rfl

theorem Members.partsOf_of_some {members : Members} {name : String} {value : Json}
    (h : members.present name = some value) (type : FieldType) :
    members.partsOf (name, type) = type.parts value := by
  rw [partsOf, h]
  exact List.append_nil _

theorem Members.partsOf_of_type {type : FieldType} (h : ∀ value, type.parts value = [])
    (members : Members) (name : String) : members.partsOf (name, type) = [] := by
  cases hpresent : members.present name with
  | none => exact partsOf_of_none hpresent type
  | some value => rw [partsOf_of_some hpresent, h]

theorem sizeOf_le_of_mem_fieldParts {value part : Json} {type : FieldType}
    (h : part ∈ type.parts value) : sizeOf part ≤ sizeOf value := by
  cases type with
  | node | optionalNode => rw [List.mem_singleton.mp h]
  | nodes | optionalNodes =>
    cases value with
    | array elements =>
      have hlt : sizeOf part < sizeOf elements := List.sizeOf_lt_of_mem h
      simp only [array.sizeOf_spec]
      omega
    | _ => cases h
  | _ => cases h

theorem sizeOf_lt_of_mem_parts {value part : Json} (h : part ∈ value.parts) :
    sizeOf part < sizeOf value := by
  cases value with
  | object members =>
    obtain ⟨field, -, hpart⟩ := List.mem_flatMap.mp h
    obtain ⟨value, hvalue, hpart⟩ := List.mem_flatMap.mp hpart
    have hle := sizeOf_le_of_mem_fieldParts hpart
    have hlt := Members.sizeOf_lt_of_present (Option.mem_toList.mp hvalue)
    simp only [object.sizeOf_spec]
    omega
  | _ => cases h

-- A value and all that is to be nodes in it, each with its position and before those in it.
def placesFrom (position : Position) (value : Json) : List (Position × Json) :=
  (position, value) ::
    (value.parts.attach.mapIdx fun i part => part.val.placesFrom (i :: position)).flatten
termination_by sizeOf value
decreasing_by exact sizeOf_lt_of_mem_parts part.property

def places (value : Json) : List (Position × Json) :=
  value.placesFrom []

theorem placesFrom_eq (position : Position) (value : Json) :
    value.placesFrom position = (position, value) ::
      (value.parts.mapIdx fun i part => part.placesFrom (i :: position)).flatten := by
  rw [placesFrom]
  congr 2
  apply List.ext_getElem <;> simp

-- The type that a value names, if it is an object.
def type? : Json → Option String
  | .object members => Members.type? members
  | _ => none

-- A member of an object that is there and not null.
def member? (name : String) : Json → Option Json
  | .object members => Members.present members name
  | _ => none

end Json

namespace Fields

variable {α : Type} {members : Json.Members} {read : Json → Except DecodeError α}

-- The values in a member were read as these parts.
abbrev ReadsParts (members : Json.Members) (read : Json → Except DecodeError α) (name : String)
    (type : FieldType) (parts : List α) : Prop :=
  List.Forall₂ (fun value part => read value = .ok part) (members.partsOf (name, type)) parts

theorem forall₂_of_mapM {values : List Json} {parts : List α} (h : values.mapM read = .ok parts) :
    List.Forall₂ (fun value part => read value = .ok part) values parts := by
  induction values generalizing parts with
  | nil =>
    cases h
    exact .nil
  | cons value values ih =>
    rw [List.mapM_cons] at h
    obtain ⟨part, hpart, h⟩ := exists_of_bind_eq_ok h
    obtain ⟨rest, hrest, h⟩ := exists_of_bind_eq_ok h
    cases h
    exact .cons hpart (ih hrest)

section Accessors

variable {name : String}

theorem readsParts_node {part : α} (h : (reading members read).node name = .ok part) :
    ReadsParts members read name .node [part] := by
  rw [node_reading] at h
  split at h
  · cases h
  · rename_i value hpresent
    rw [ReadsParts, Json.Members.partsOf_of_some hpresent]
    exact .cons h .nil

theorem readsParts_optionalNode {part : Option α}
    (h : (reading members read).optionalNode name = .ok part) :
    ReadsParts members read name .optionalNode part.toList := by
  rw [optionalNode_reading] at h
  cases hpresent : members.present name with
  | none =>
    rw [hpresent] at h
    cases h
    rw [ReadsParts, Json.Members.partsOf_of_none hpresent]
    exact .nil
  | some value =>
    rw [hpresent] at h
    obtain ⟨found, hfound, rfl⟩ := exists_of_map_eq_ok h
    rw [ReadsParts, Json.Members.partsOf_of_some hpresent]
    exact .cons hfound .nil

theorem readsParts_optionalNodes {parts : Option (List α)}
    (h : (reading members read).optionalNodes name = .ok parts) :
    ReadsParts members read name .optionalNodes (parts.getD []) := by
  rw [optionalNodes_reading] at h
  split at h
  · rename_i hpresent
    cases h
    rw [ReadsParts, Json.Members.partsOf_of_none hpresent]
    exact .nil
  · rename_i items hpresent
    obtain ⟨found, hfound, rfl⟩ := exists_of_map_eq_ok h
    rw [ReadsParts, Json.Members.partsOf_of_some hpresent]
    exact forall₂_of_mapM hfound
  · cases h

-- A list that must be there has the same parts as one that may be missing.
theorem readsParts_nodes {parts : List α} (h : (reading members read).nodes name = .ok parts) :
    ReadsParts members read name .nodes parts := by
  obtain ⟨found, hfound, h⟩ := exists_of_bind_eq_ok h
  cases found with
  | none => cases h
  | some found =>
    cases h
    exact readsParts_optionalNodes hfound

end Accessors

end Fields

namespace Form

open Json (Members)
open Fields (reading ReadsParts)

variable {α : Type} {members : Members} {read : Json → Except DecodeError α}

-- What is read of some fields ends up as the last parts of a construct of the kind, behind those
-- that were read already.
def Gathers (members : Members) (read : Json → Except DecodeError α) (kind : Kind)
    (fields : List (String × FieldType)) (found : List α)
    (outcome : Except DecodeError (Form α)) : Prop :=
  ∀ form, outcome = .ok form → form.kind? = some kind ∧ ∃ parts, form.children = found ++ parts ∧
    List.Forall₂ (fun value part => read value = .ok part) (fields.flatMap members.partsOf) parts

namespace Gathers

variable {kind : Kind} {fields : List (String × FieldType)} {found : List α}

theorem done {form : Form α} (hkind : form.kind? = some kind) (hchildren : form.children = found) :
    Gathers members read kind [] found (pure form) := by
  rintro _ ⟨⟩
  exact ⟨hkind, [], by rw [hchildren, List.append_nil], .nil⟩

theorem next {β : Type} {name : String} {type : FieldType} {outcome : Except DecodeError β}
    {rest : β → Except DecodeError (Form α)} (partsOf : β → List α)
    (hfield : ∀ {result}, outcome = .ok result →
      ReadsParts members read name type (partsOf result))
    (hrest : ∀ result, Gathers members read kind fields (found ++ partsOf result) (rest result)) :
    Gathers members read kind ((name, type) :: fields) found (outcome >>= rest) := by
  intro form h
  obtain ⟨result, hresult, h⟩ := exists_of_bind_eq_ok h
  obtain ⟨hkind, parts, hchildren, hparts⟩ := hrest result form h
  refine ⟨hkind, partsOf result ++ parts, by rw [hchildren, List.append_assoc], ?_⟩
  exact List.rel_append (hfield hresult) hparts

section Fields

variable {name : String}

theorem node {rest : α → Except DecodeError (Form α)}
    (hrest : ∀ part, Gathers members read kind fields (found ++ [part]) (rest part)) :
    Gathers members read kind ((name, .node) :: fields) found
      ((reading members read).node name >>= rest) :=
  next _ Fields.readsParts_node hrest

theorem optionalNode {rest : Option α → Except DecodeError (Form α)}
    (hrest : ∀ part, Gathers members read kind fields (found ++ part.toList) (rest part)) :
    Gathers members read kind ((name, .optionalNode) :: fields) found
      ((reading members read).optionalNode name >>= rest) :=
  next _ Fields.readsParts_optionalNode hrest

theorem nodes {rest : List α → Except DecodeError (Form α)}
    (hrest : ∀ parts, Gathers members read kind fields (found ++ parts) (rest parts)) :
    Gathers members read kind ((name, .nodes) :: fields) found
      ((reading members read).nodes name >>= rest) :=
  next _ Fields.readsParts_nodes hrest

theorem optionalNodes {rest : Option (List α) → Except DecodeError (Form α)}
    (hrest : ∀ parts, Gathers members read kind fields (found ++ parts.getD []) (rest parts)) :
    Gathers members read kind ((name, .optionalNodes) :: fields) found
      ((reading members read).optionalNodes name >>= rest) :=
  next _ Fields.readsParts_optionalNodes hrest

-- A field without parts.
theorem skip {β : Type} {type : FieldType} {outcome : Except DecodeError β}
    {rest : β → Except DecodeError (Form α)} (htype : ∀ value, type.parts value = [])
    (hrest : ∀ result, Gathers members read kind fields found (rest result)) :
    Gathers members read kind ((name, type) :: fields) found (outcome >>= rest) := by
  refine next (fun _ => []) (fun _ => ?_) fun result => ?_
  · rw [ReadsParts, Members.partsOf_of_type htype]
    exact .nil
  · rw [List.append_nil]
    exact hrest result

end Fields

end Gathers

-- The value of a literal is read last, and there are no parts.
theorem gathers_literal :
    Gathers members read .literal Kind.literal.fields []
      (ofFields .literal (reading members read)) := by
  intro form h
  obtain ⟨regex, -, h⟩ := exists_of_bind_eq_ok h
  obtain ⟨value, -, h⟩ := exists_of_bind_eq_ok h
  cases h
  refine ⟨rfl, [], rfl, ?_⟩
  rw [Kind.fields, List.flatMap_cons, List.flatMap_cons, List.flatMap_nil,
    Members.partsOf_of_type (fun _ => rfl), Members.partsOf_of_type (fun _ => rfl)]
  exact .nil

open Gathers in
-- Every kind reads its fields in the order of its parts.
theorem gathers_ofFields (kind : Kind) :
    Gathers members read kind kind.fields [] (ofFields kind (reading members read)) := by
  cases kind
  case literal => exact gathers_literal
  all_goals
    rw [ofFields, Kind.fields]
    -- the accessor that comes next says which parts it adds
    repeat first
      | with_reducible refine node fun _ => ?_
      | with_reducible refine optionalNode fun _ => ?_
      | with_reducible refine nodes fun _ => ?_
      | with_reducible refine optionalNodes fun _ => ?_
      | with_reducible refine skip (fun _ => rfl) fun _ => ?_
    exact done rfl (by simp [children])

-- A node object names a type, and what is read of it goes by that type.
theorem exists_type_of_ofObject {form : Form α}
    (h : ofObject (reading members read) = .ok form) :
    ∃ type, members.type? = some type ∧
      ((∃ kind, Kind.ofName? type = some kind ∧ ofFields kind (reading members read) = .ok form) ∨
        Kind.ofName? type = none ∧ form = .unmodeled type) := by
  unfold ofObject at h
  split at h
  · rename_i type htype
    refine ⟨type, Members.type?_eq_some_iff.mpr htype, ?_⟩
    split at h
    · rename_i kind hkind
      exact .inl ⟨kind, hkind, h⟩
    · rename_i hkind
      exact .inr ⟨hkind, (Except.ok.inj h).symm⟩
  · cases h
  · cases h

end Form

namespace Kind

theorem ofName?_eq_none_iff {name : String} : ofName? name = none ↔ name ∉ all.map Kind.name := by
  simp [ofName?]

end Kind

namespace Json

-- Whether an object of a type is refused by the printer for what it says itself: the type is not
-- known, there is an `else`, or the property is a method or an accessor.
def IsRefused (object : Json) (type : String) : Prop :=
  type ∉ Kind.all.map Kind.name ∨
    (type = "IfStatement" ∧ (object.member? "alternate").isSome) ∨
    (type = "Property" ∧ (object.member? "method" = some (.bool true) ∨
      ∃ value, object.member? "kind" = some value ∧
        (value.variant? = some "get" ∨ value.variant? = some "set")))

end Json

-- Whether a node has the kind that an object names, and a form of its own exactly if that kind has.
def KeepsKind (object : Json) (node : Node) : Prop :=
  object.type? = some node.kindName ∧
    ((∃ name, node.form = .unmodeled name) ↔ node.kindName ∉ Kind.all.map Kind.name)

namespace Node

theorem exists_members_of_ofJson {value : Json} {tree : Node} (h : ofJson value = .ok tree) :
    ∃ members, value = .object members ∧
      Form.ofObject (.reading members ofJson) = .ok tree.form := by
  cases value with
  | object members =>
    rw [ofJson_object] at h
    obtain ⟨form, hform, rfl⟩ := exists_of_map_eq_ok h
    exact ⟨members, rfl, hform⟩
  | _ =>
    rw [ofJson] at h
    · cases h
    · rintro _ ⟨⟩

theorem keepsKind_of_ofJson {value : Json} {tree : Node} (h : ofJson value = .ok tree) :
    KeepsKind value tree := by
  obtain ⟨members, rfl, hform⟩ := exists_members_of_ofJson h
  obtain ⟨type, htype, hread⟩ := Form.exists_type_of_ofObject hform
  rcases hread with ⟨kind, hkind, hfields⟩ | ⟨hnone, hunmodeled⟩
  · obtain ⟨hform, -⟩ := Form.gathers_ofFields kind tree.form hfields
    have hname : tree.kindName = type := by
      rw [kindName, Form.kindName_of_kind? hform, Kind.name_of_ofName? hkind]
    refine ⟨by rw [hname]; exact htype, ?_, ?_⟩
    · rintro ⟨name, hunmodeled⟩
      rw [hunmodeled] at hform
      cases hform
    · rw [hname, ← Kind.ofName?_eq_none_iff, hkind]
      rintro ⟨⟩
  · have hname : tree.kindName = type := by rw [kindName, hunmodeled]; rfl
    refine ⟨by rw [hname]; exact htype, fun _ => ?_, fun _ => ⟨type, hunmodeled⟩⟩
    rwa [hname, ← Kind.ofName?_eq_none_iff]

-- The direct subtrees are read from the parts of the object, one from each.
theorem forall₂_parts_of_ofJson {value : Json} {tree : Node} (h : ofJson value = .ok tree) :
    List.Forall₂ (fun part child => ofJson part = .ok child) value.parts tree.children := by
  obtain ⟨members, rfl, hform⟩ := exists_members_of_ofJson h
  obtain ⟨type, htype, hread⟩ := Form.exists_type_of_ofObject hform
  rw [Json.parts, Json.Members.fields_of_type? htype, fieldsOfType, children]
  rcases hread with ⟨kind, hkind, hfields⟩ | ⟨hnone, hunmodeled⟩
  · obtain ⟨-, parts, hchildren, hparts⟩ := Form.gathers_ofFields kind tree.form hfields
    rw [hkind, hchildren]
    exact hparts
  · rw [hnone, hunmodeled]
    exact .nil

theorem ofFields_of_ofJson {members : Json.Members} {tree : Node}
    (h : ofJson (.object members) = .ok tree) {kind : Kind} (hkind : tree.form.kind? = some kind) :
    Form.ofFields kind (.reading members ofJson) = .ok tree.form := by
  obtain ⟨_, ⟨⟩, hform⟩ := exists_members_of_ofJson h
  obtain ⟨type, -, ⟨found, -, hfields⟩ | ⟨-, hunmodeled⟩⟩ := Form.exists_type_of_ofObject hform
  · rw [(Form.gathers_ofFields found tree.form hfields).1] at hkind
    rw [← Option.some.inj hkind]
    exact hfields
  · rw [hunmodeled] at hkind
    cases hkind

end Node

theorem forall₂_mapIdx {α β γ δ : Type} {related : α → β → Prop} {result : γ → δ → Prop}
    {xs : List α} {ys : List β} (h : List.Forall₂ related xs ys) {f : Nat → α → γ} {g : Nat → β → δ}
    (hstep : ∀ i x y, x ∈ xs → related x y → result (f i x) (g i y)) :
    List.Forall₂ result (xs.mapIdx f) (ys.mapIdx g) := by
  induction h generalizing f g with
  | nil => exact .nil
  | @cons x y xs ys hxy _ ih =>
    rw [List.mapIdx_cons, List.mapIdx_cons]
    exact .cons (hstep 0 x y List.mem_cons_self hxy)
      (ih fun i x y hx hxy => hstep (i + 1) x y (List.mem_cons_of_mem _ hx) hxy)

theorem Cursor.preorder_eq_mapIdx (cursor : Cursor) :
    cursor.preorder = cursor :: (cursor.node.children.mapIdx fun i child =>
      preorder ⟨i :: cursor.position, child⟩).flatten := by
  rw [preorder_eq, List.flatMap_def, children_eq_mapIdx]
  congr 2
  apply List.ext_getElem <;> simp

-- The nodes of a tree are read from what is to be nodes in the value, each at its own position.
theorem forall₂_placesFrom_of_ofJson {value : Json} {tree : Node} (h : Node.ofJson value = .ok tree)
    (position : Position) :
    List.Forall₂ (fun place cursor => place.1 = cursor.position ∧
        Node.ofJson place.2 = .ok cursor.node)
      (value.placesFrom position) (Cursor.preorder ⟨position, tree⟩) := by
  induction hsize : sizeOf value using Nat.strongRecOn generalizing value tree position with
  | ind size ih =>
    subst size
    rw [Json.placesFrom_eq, Cursor.preorder_eq_mapIdx]
    refine .cons ⟨rfl, h⟩ (List.rel_flatten (forall₂_mapIdx (Node.forall₂_parts_of_ofJson h) ?_))
    intro i part child hpart hread
    exact ih (sizeOf part) (Json.sizeOf_lt_of_mem_parts hpart) hread (i :: position) rfl

namespace Fields

variable {α : Type} {members : Json.Members} {read : Json → Except DecodeError α} {name : String}

theorem present_of_optionalNode {part : α}
    (h : (reading members read).optionalNode name = .ok (some part)) :
    (members.present name).isSome := by
  rw [optionalNode_reading] at h
  cases hpresent : members.present name with
  | none => rw [hpresent] at h; cases h
  | some value => rfl

theorem present_of_flag (h : (reading members read).flag name false = .ok true) :
    members.present name = some (.bool true) := by
  rw [flag_reading] at h
  split at h
  · cases h
  · rename_i hpresent
    rw [hpresent, Except.ok.inj h]
  · cases h

theorem variant_of_propertyKind {kind : PropertyKind}
    (h : (reading members read).optional name PropertyKind.ofJson = .ok (some kind)) :
    ∃ value, members.present name = some value ∧ value.variant? = some kind.name := by
  rw [optional_reading] at h
  cases hpresent : members.present name with
  | none => rw [hpresent] at h; cases h
  | some value =>
    refine ⟨value, rfl, ?_⟩
    rw [hpresent] at h
    obtain ⟨_, hread, ⟨⟩⟩ := exists_of_map_eq_ok (eq_ok_of_mapError h)
    have hexact := Json.exact_readVariant PropertyKind.all PropertyKind.name value ""
    obtain ⟨chosen, hchosen, -⟩ := hexact.accepted_of_ok hread
    have hname := hexact.write_eq kind hread
    rw [hchosen] at hname
    rw [hchosen, Json.string.inj hname]
    rfl

end Fields

namespace Node

theorem alternate_of_ofJson {members : Json.Members} {test consequent alternate : Node}
    (h : ofJson (.object members) = .ok ⟨.ifStatement test consequent (some alternate)⟩) :
    (members.present "alternate").isSome := by
  have hfields := ofFields_of_ofJson h rfl
  obtain ⟨_, -, hfields⟩ := exists_of_bind_eq_ok hfields
  obtain ⟨_, -, hfields⟩ := exists_of_bind_eq_ok hfields
  obtain ⟨found, halternate, hfields⟩ := exists_of_bind_eq_ok hfields
  cases hfields
  exact Fields.present_of_optionalNode halternate

theorem property_of_ofJson {members : Json.Members} {key value : Node} {kind : PropertyKind}
    {method : Bool} (h : ofJson (.object members) = .ok ⟨.property key value kind method⟩) :
    (method = true → members.present "method" = some (.bool true)) ∧
      (kind ≠ .init → ∃ value, members.present "kind" = some value ∧
        value.variant? = some kind.name) := by
  have hfields := ofFields_of_ofJson h rfl
  obtain ⟨_, -, hfields⟩ := exists_of_bind_eq_ok hfields
  obtain ⟨_, -, hfields⟩ := exists_of_bind_eq_ok hfields
  obtain ⟨found, hkind, hfields⟩ := exists_of_bind_eq_ok hfields
  obtain ⟨_, hmethod, hfields⟩ := exists_of_bind_eq_ok hfields
  cases hfields
  refine ⟨?_, ?_⟩
  · rintro rfl
    exact Fields.present_of_flag hmethod
  · intro hne
    cases found with
    | none => exact absurd rfl hne
    | some kind => exact Fields.variant_of_propertyKind hkind

theorem isRefused_of_ofJson {value : Json} {tree : Node} (h : ofJson value = .ok tree)
    (hoffending : tree.isOffending = true) : value.IsRefused tree.kindName := by
  obtain ⟨members, rfl, -⟩ := exists_members_of_ofJson h
  obtain ⟨form⟩ := tree
  cases form with
  | unmodeled name => exact .inl ((keepsKind_of_ofJson h).2.mp ⟨name, rfl⟩)
  | ifStatement test consequent alternate =>
    cases alternate with
    | none => cases hoffending
    | some alternate => exact .inr (.inl ⟨rfl, alternate_of_ofJson h⟩)
  | property key value kind method =>
    obtain ⟨hmethod, hkind⟩ := property_of_ofJson h
    refine .inr (.inr ⟨rfl, ?_⟩)
    cases method with
    | true => exact .inl (hmethod rfl)
    | false =>
      cases kind with
      | init => cases hoffending
      | get =>
        obtain ⟨found, hfound, hname⟩ := hkind (by rintro ⟨⟩)
        exact .inr ⟨found, hfound, .inl hname⟩
      | set =>
        obtain ⟨found, hfound, hname⟩ := hkind (by rintro ⟨⟩)
        exact .inr ⟨found, hfound, .inr hname⟩
  | _ => cases hoffending

-- Printing fails only at an offending node of the tree, whose kind is told.
theorem exists_offending_of_print {tree : Node} {options : PrintOptions} {error : Unsupported}
    (h : tree.print options = .error error) :
    ∃ cursor ∈ (Cursor.root tree).preorder,
      cursor.node.isOffending = true ∧ cursor.node.kindName = error.kind := by
  have houtcome := Printer.blames_print ⟨.ofTable (.build tree), options⟩ (.root tree)
  change Blames _ (tree.print options) at houtcome
  rw [h] at houtcome
  cases hfirst : (Cursor.root tree).visited.find? fun cursor => cursor.node.isOffending with
  | none =>
    rw [hfirst] at houtcome
    obtain ⟨text, ⟨⟩⟩ := houtcome
  | some cursor =>
    rw [hfirst] at houtcome
    have hvisited := Cursor.mem_visited_iff.mp (List.mem_of_find?_eq_some hfirst)
    have hoffending := List.find?_some (p := fun other : Cursor => other.node.isOffending) hfirst
    have hkind := congrArg Unsupported.kind (Except.error.inj houtcome)
    exact ⟨cursor, hvisited.1, hoffending, hkind.symm⟩

end Node

theorem exists_of_forall₂ {α β : Type} {related : α → β → Prop} {xs : List α} {ys : List β}
    (h : List.Forall₂ related xs ys) {y : β} (hy : y ∈ ys) : ∃ x ∈ xs, related x y := by
  induction h with
  | nil => cases hy
  | @cons first other xs ys hfirst _ ih =>
    rcases List.mem_cons.mp hy with rfl | hy
    · exact ⟨first, List.mem_cons_self, hfirst⟩
    · obtain ⟨x, hx, hxy⟩ := ih hy
      exact ⟨x, List.mem_cons_of_mem _ hx, hxy⟩

-- Every node has the kind that its object names, and if printing the tree of a text fails, the
-- text itself has an object of the kind that is told, and in that object the reason.
theorem kinds_kept_from_text :
    (∀ value tree, Node.ofJson value = .ok tree → KeepsKind value tree ∧
      List.Forall₂ (fun place cursor => place.1 = cursor.position ∧ KeepsKind place.2 cursor.node)
        value.places (Cursor.root tree).preorder) ∧
    ∀ text tree options error, Node.ofText text = .ok tree → tree.print options = .error error →
      ∃ value, Json.parse text = .ok value ∧ ∃ place ∈ value.places,
        place.2.type? = some error.kind ∧ place.2.IsRefused error.kind := by
  refine ⟨?_, ?_⟩
  · intro value tree h
    refine ⟨Node.keepsKind_of_ofJson h, (forall₂_placesFrom_of_ofJson h []).imp ?_⟩
    rintro place cursor ⟨hposition, hread⟩
    exact ⟨hposition, Node.keepsKind_of_ofJson hread⟩
  · intro text tree options error htext hprint
    obtain ⟨value, hvalue, htree⟩ := exists_of_bind_eq_ok htext
    obtain ⟨cursor, hcursor, hoffending, hkind⟩ := Node.exists_offending_of_print hprint
    have hplaces := forall₂_placesFrom_of_ofJson (eq_ok_of_mapError htree) []
    obtain ⟨place, hplace, -, hread⟩ := exists_of_forall₂ hplaces hcursor
    rw [← hkind]
    exact ⟨value, eq_ok_of_mapError hvalue, place, hplace, (Node.keepsKind_of_ofJson hread).1,
      Node.isRefused_of_ofJson hread hoffending⟩

-- `if (this) ; else ;` as a text, as a value and as a tree.
def elseText : String :=
  "\x7b\"type\":\"IfStatement\",\"test\":\x7b\"type\":\"ThisExpression\"\x7d," ++
    "\"consequent\":\x7b\"type\":\"EmptyStatement\"\x7d," ++
    "\"alternate\":\x7b\"type\":\"EmptyStatement\"\x7d\x7d"

def elseValue : Json :=
  .object [("type", .string "IfStatement"), ("test", .object [("type", .string "ThisExpression")]),
    ("consequent", .object [("type", .string "EmptyStatement")]),
    ("alternate", .object [("type", .string "EmptyStatement")])]

def elseTree : Node :=
  ⟨.ifStatement .this ⟨.emptyStatement⟩ (some ⟨.emptyStatement⟩)⟩

theorem kinds_kept_from_elseText :
    (Node.ofJson elseValue = .ok elseTree ∧ KeepsKind elseValue elseTree) ∧
    (Node.ofText elseText = .ok elseTree ∧ elseTree.print {} = .error ⟨"IfStatement"⟩ ∧
      ∃ value, Json.parse elseText = .ok value ∧ ∃ place ∈ value.places,
        place.2.type? = some "IfStatement" ∧ place.2.IsRefused "IfStatement") := by
  have hvalue : Node.ofJson elseValue = .ok elseTree := by cbv
  have htext : Node.ofText elseText = .ok elseTree := by cbv
  have hprint : elseTree.print {} = .error ⟨"IfStatement"⟩ := by
    rw [Node.print, Printer.print_eq]
    rfl
  exact ⟨⟨hvalue, (kinds_kept_from_text.1 elseValue elseTree hvalue).1⟩, htext, hprint,
    kinds_kept_from_text.2 elseText elseTree {} ⟨"IfStatement"⟩ htext hprint⟩

end Estree
