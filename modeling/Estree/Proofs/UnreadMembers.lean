import Estree.Proofs.NodeObjects

namespace Estree

namespace Json

-- Whether a member of this name is not read of an object.
def Members.Unread (members : Members) (name : String) : Prop :=
  name ≠ "type" ∧ name ∉ members.fields.map Prod.fst

-- A change to one node object, which may be a part of another one.
inductive Edit : Json → Json → Prop where
  -- The members are put in another order. No two of them have the same name.
  | reorder {members others : Members} (hnames : (members.map Prod.fst).Nodup)
      (horder : members.Perm others) : Edit (.object members) (.object others)
  -- Members that are not read are replaced by others; both may be none at all.
  | replace {front old new back : Members}
      (hold : ∀ member ∈ old, (front ++ old ++ back).Unread member.1)
      (hnew : ∀ member ∈ new, (front ++ old ++ back).Unread member.1) :
      Edit (.object (front ++ old ++ back)) (.object (front ++ new ++ back))
  -- A null member is left out. A text may not be null, and a type neither.
  | dropNull {front back : Members} {name : String}
      (hname : name ∉ (front ++ back).map Prod.fst) (htype : name ≠ "type")
      (hstring : (name, .string) ∉ (front ++ back).fields) :
      Edit (.object (front ++ (name, .null) :: back)) (.object (front ++ back))
  -- A member that holds a node is changed.
  | member {front back : Members} {name : String} {type : FieldType} {value other : Json}
      (hfield : (name, type) ∈ Members.fields (front ++ (name, value) :: back))
      (htype : type = .node ∨ type = .optionalNode) (hvalue : Edit value other) :
      Edit (.object (front ++ (name, value) :: back)) (.object (front ++ (name, other) :: back))
  -- A member that holds a list of nodes is changed in one of its items.
  | item {front back : Members} {name : String} {type : FieldType} {before after : List Json}
      {value other : Json}
      (hfield : (name, type) ∈
        Members.fields (front ++ (name, .array (before ++ value :: after)) :: back))
      (htype : type = .nodes ∨ type = .optionalNodes) (hvalue : Edit value other) :
      Edit (.object (front ++ (name, .array (before ++ value :: after)) :: back))
        (.object (front ++ (name, .array (before ++ other :: after)) :: back))

namespace Members

-- The first member of a name that comes before the others decides.
theorem lookup_append_cons (front back : Members) (name other : String) (value : Json) :
    (front ++ (other, value) :: back).lookup name =
      (front.lookup name).or (if name = other then some value else back.lookup name) := by
  rw [List.lookup_append, List.lookup_cons]
  by_cases h : name = other
  · simp [h]
  · simp [h, beq_false_of_ne h]

theorem lookup_eq_none {members : Members} {name : String} (h : name ∉ members.map Prod.fst) :
    members.lookup name = none := by
  rw [List.lookup_eq_none_iff]
  intro member hmember
  rw [bne_iff_ne]
  rintro rfl
  exact h (List.mem_map_of_mem hmember)

-- Where every name stands for one member, the order does not matter.
theorem lookup_perm {members others : Members} (hnames : (members.map Prod.fst).Nodup)
    (horder : members.Perm others) (name : String) : members.lookup name = others.lookup name := by
  induction horder with
  | nil => rfl
  | cons member _ ih =>
    rw [List.map_cons, List.nodup_cons] at hnames
    rw [List.lookup_cons, List.lookup_cons, ih hnames.2]
  | swap first second rest =>
    have hne : second.1 ≠ first.1 := by
      intro heq
      simp [heq] at hnames
    rw [List.lookup_cons, List.lookup_cons, List.lookup_cons, List.lookup_cons]
    by_cases hfirst : name = first.1
    · simp [hfirst, beq_false_of_ne (Ne.symm hne)]
    · simp [beq_false_of_ne hfirst]
  | trans hfirst _ ihfirst ihsecond =>
    exact (ihfirst hnames).trans (ihsecond ((hfirst.map Prod.fst).nodup_iff.mp hnames))

theorem lookup_replace {old : Members} {name : String} (h : name ∉ old.map Prod.fst)
    (front back : Members) : (front ++ old ++ back).lookup name = (front ++ back).lookup name := by
  simp [List.lookup_append, lookup_eq_none h]

theorem present_eq_of_lookup {members others : Members} {name : String}
    (h : members.lookup name = others.lookup name) :
    members.present name = others.present name := by
  rw [present, present, h]

theorem present_append_cons {front : Members} {name : String} (hfront : front.lookup name = none)
    {value : Json} (hvalue : value.notNull = some value) (back : Members) :
    present (front ++ (name, value) :: back) name = some value := by
  rw [present, lookup_append_cons, hfront, if_pos rfl]
  exact hvalue

theorem getD_lookup (members : Members) (name : String) :
    (members.lookup name).getD .null = (members.present name).getD .null := by
  rw [present]
  cases members.lookup name with
  | none => rfl
  | some value => cases value <;> rfl

end Members

end Json

namespace Fields

variable {α : Type}

-- Whether a field is the same for two objects, read as its type says.
def Agree (fields others : Fields α) (name : String) : FieldType → Prop
  | .node | .optionalNode => fields.optionalNode name = others.optionalNode name
  | .nodes | .optionalNodes => fields.optionalNodes name = others.optionalNodes name
  | .string => fields.string name = others.string name
  | .flag default => fields.flag name default = others.flag name default
  | .variant _ _ | .regex => ∀ {β : Type} (ofJson : Json → Except Json.Mismatch β),
      fields.optional name ofJson = others.optional name ofJson
  | .literalValue =>
      (fields.members.lookup name).getD .null = (others.members.lookup name).getD .null

section Reading

variable {members others : Json.Members} {read : Json → Except DecodeError α} {name : String}

-- Only a text tells a null member from one that is not there.
theorem agree_of_present {type : FieldType} (h : members.present name = others.present name)
    (hstring : type = .string → members.lookup name = others.lookup name) :
    (reading members read).Agree (reading others read) name type := by
  cases type with
  | node | optionalNode => simp only [Agree, optionalNode_reading, h]
  | nodes | optionalNodes => simp only [Agree, optionalNodes_reading, h]
  | string => simp only [Agree, string_reading, hstring rfl]
  | flag default => simp only [Agree, flag_reading, h]
  | variant | regex =>
    intro β ofJson
    rw [optional_reading, optional_reading, h]
  | literalValue =>
    change (members.lookup name).getD .null = (others.lookup name).getD .null
    rw [Json.Members.getD_lookup, Json.Members.getD_lookup, h]

theorem agree_of_lookup {type : FieldType} (h : members.lookup name = others.lookup name) :
    (reading members read).Agree (reading others read) name type :=
  agree_of_present (Json.Members.present_eq_of_lookup h) fun _ => h

theorem agree_of_read {type : FieldType} (htype : type = .node ∨ type = .optionalNode)
    {value other : Json} (hvalue : members.present name = some value)
    (hother : others.present name = some other) (h : read value = read other) :
    (reading members read).Agree (reading others read) name type := by
  have hsame : (reading members read).optionalNode name =
      (reading others read).optionalNode name := by
    rw [optionalNode_reading, optionalNode_reading, hvalue, hother, Option.mapM_some,
      Option.mapM_some, h]
  rcases htype with rfl | rfl <;> exact hsame

theorem agree_of_items {type : FieldType} (htype : type = .nodes ∨ type = .optionalNodes)
    {items fresh : List Json} (hitems : members.present name = some (.array items))
    (hfresh : others.present name = some (.array fresh)) (h : items.mapM read = fresh.mapM read) :
    (reading members read).Agree (reading others read) name type := by
  have hsame : (reading members read).optionalNodes name =
      (reading others read).optionalNodes name := by
    simp only [optionalNodes_reading, hitems, hfresh, h]
  rcases htype with rfl | rfl <;> exact hsame

end Reading

end Fields

namespace Form

variable {α : Type}

-- A construct is made of the fields of its kind and of nothing else.
theorem ofFields_congr {kind : Kind} {fields others : Fields α}
    (h : ∀ field ∈ kind.fields, fields.Agree others field.1 field.2) :
    ofFields kind fields = ofFields kind others := by
  cases kind <;>
    simp only [Kind.fields, List.forall_mem_cons, Fields.Agree, List.not_mem_nil] at h <;>
    simp only [ofFields, Fields.node, Fields.nodes, Fields.required, h]

end Form

namespace Node

open Json (Members)

-- Two objects of one type are read alike if all fields of the type are.
theorem ofJson_object_congr {members others : Members}
    (htype : members.lookup "type" = others.lookup "type")
    (hfields : ∀ field ∈ members.fields,
      (Fields.reading members ofJson).Agree (.reading others ofJson) field.1 field.2) :
    ofJson (.object members) = ofJson (.object others) := by
  have hform : Form.ofObject (.reading members ofJson) =
      Form.ofObject (.reading others ofJson) := by
    have hsame : (Fields.reading members ofJson).members.lookup "type" =
        (Fields.reading others ofJson).members.lookup "type" := htype
    rw [Form.ofObject, Form.ofObject, ← hsame]
    split
    · rename_i type hlookup
      have hnamed : members.type? = some type := Members.type?_eq_some_iff.mpr hlookup
      rw [Members.fields_of_type? hnamed, fieldsOfType] at hfields
      split
      · rename_i kind hkind
        rw [hkind] at hfields
        exact Form.ofFields_congr hfields
      · rfl
    · rfl
    · rfl
  rw [ofJson_object, ofJson_object, hform]

-- A member may be changed to one that is read alike. One that comes before it under the same name
-- hides the change.
theorem ofJson_changed_member {front back : Members} {name : String} {type : FieldType}
    {value other : Json} (hfield : (name, type) ∈ Members.fields (front ++ (name, value) :: back))
    (h : front.lookup name = none →
      (Fields.reading (front ++ (name, value) :: back) ofJson).Agree
        (.reading (front ++ (name, other) :: back) ofJson) name type) :
    ofJson (.object (front ++ (name, value) :: back)) =
      ofJson (.object (front ++ (name, other) :: back)) := by
  have hlookup {chosen : String} (hne : chosen ≠ name) :
      (front ++ (name, value) :: back).lookup chosen =
        (front ++ (name, other) :: back).lookup chosen := by
    rw [Members.lookup_append_cons, Members.lookup_append_cons, if_neg hne, if_neg hne]
  apply ofJson_object_congr
  · exact hlookup (Members.ne_type_of_mem_fields hfield).symm
  · intro field hmem
    by_cases hname : field.1 = name
    · obtain rfl := Members.eq_of_mem_fields hmem hfield hname
      cases hfront : front.lookup name with
      | none => exact h hfront
      | some first =>
        apply Fields.agree_of_lookup
        rw [Members.lookup_append_cons, Members.lookup_append_cons, hfront]
        rfl
    · exact Fields.agree_of_lookup (hlookup hname)

theorem ofJson_reorder {members others : Members} (hnames : (members.map Prod.fst).Nodup)
    (horder : members.Perm others) : ofJson (.object members) = ofJson (.object others) := by
  have hlookup := Members.lookup_perm hnames horder
  exact ofJson_object_congr (hlookup "type") fun field _ => Fields.agree_of_lookup (hlookup field.1)

theorem ofJson_replace {front old new back : Members}
    (hold : ∀ member ∈ old, (front ++ old ++ back).Unread member.1)
    (hnew : ∀ member ∈ new, (front ++ old ++ back).Unread member.1) :
    ofJson (.object (front ++ old ++ back)) = ofJson (.object (front ++ new ++ back)) := by
  -- A name that is read is among neither the old members nor the new ones.
  have hlookup {name : String} (hread : ¬ (front ++ old ++ back).Unread name) :
      (front ++ old ++ back).lookup name = (front ++ new ++ back).lookup name := by
    have hnot {members : Members} (h : ∀ member ∈ members, (front ++ old ++ back).Unread member.1) :
        name ∉ members.map Prod.fst := by
      intro hname
      obtain ⟨member, hmember, rfl⟩ := List.mem_map.mp hname
      exact hread (h member hmember)
    rw [Members.lookup_replace (hnot hold), Members.lookup_replace (hnot hnew)]
  apply ofJson_object_congr
  · exact hlookup fun h => h.1 rfl
  · intro field hfield
    exact Fields.agree_of_lookup (hlookup fun h => h.2 (List.mem_map_of_mem hfield))

theorem ofJson_dropNull {front back : Members} {name : String}
    (hname : name ∉ (front ++ back).map Prod.fst) (htype : name ≠ "type")
    (hstring : (name, .string) ∉ (front ++ back).fields) :
    ofJson (.object (front ++ (name, .null) :: back)) = ofJson (.object (front ++ back)) := by
  have hlookup {other : String} (hne : other ≠ name) :
      (front ++ back).lookup other = (front ++ (name, .null) :: back).lookup other := by
    rw [Members.lookup_append_cons, if_neg hne, List.lookup_append]
  symm
  apply ofJson_object_congr (hlookup htype.symm)
  rintro ⟨other, type⟩ hfield
  by_cases hother : other = name
  · subst hother
    apply Fields.agree_of_present
    · have hnone := Members.lookup_eq_none hname
      have hfront : front.lookup other = none := by
        rw [List.lookup_append, Option.or_eq_none_iff] at hnone
        exact hnone.1
      rw [Members.present, Members.present, hnone, Members.lookup_append_cons, hfront, if_pos rfl]
      rfl
    · rintro rfl
      exact absurd hfield hstring
  · exact Fields.agree_of_lookup (hlookup hother)

-- One change of one node object is not noticed.
theorem ofJson_edit {value other : Json} (h : Json.Edit value other) :
    ofJson value = ofJson other := by
  have hobject {value other : Json} (h : Json.Edit value other) :
      value.notNull = some value ∧ other.notNull = some other := by
    cases h <;> exact ⟨rfl, rfl⟩
  induction h with
  | reorder hnames horder => exact ofJson_reorder hnames horder
  | replace hold hnew => exact ofJson_replace hold hnew
  | dropNull hname htype hstring => exact ofJson_dropNull hname htype hstring
  | member hfield htype hvalue ih =>
    obtain ⟨hsome, hsomeOther⟩ := hobject hvalue
    exact ofJson_changed_member hfield fun hfront => Fields.agree_of_read htype
      (Members.present_append_cons hfront hsome _)
      (Members.present_append_cons hfront hsomeOther _) ih
  | item hfield htype _ ih =>
    refine ofJson_changed_member hfield fun hfront => Fields.agree_of_items htype
      (Members.present_append_cons hfront rfl _) (Members.present_append_cons hfront rfl _) ?_
    rw [List.mapM_append, List.mapM_append, List.mapM_cons, List.mapM_cons, ih]

end Node

-- Values that differ by any number of such changes are read alike: as the same tree, or with the
-- same error.
theorem ofJson_eq_of_edits {value other : Json} (h : Relation.EqvGen Json.Edit value other) :
    Node.ofJson value = Node.ofJson other := by
  induction h with
  | rel value other h => exact Node.ofJson_edit h
  | refl value => rfl
  | symm value other _ ih => exact ih.symm
  | trans value middle other _ _ ihfirst ihsecond => exact ihfirst.trans ihsecond

-- A program that returns, as one parser writes it and as another one does.
def returningProgram : Json :=
  .object [("type", .string "Program"),
    ("body", .array [.object [("type", .string "ReturnStatement"), ("argument", .null)]])]

def returningProgramWithRange : Json :=
  .object [("range", .array [.number (.int 0), .number (.int 7)]),
    ("body", .array [.object [("type", .string "ReturnStatement")]]), ("type", .string "Program")]

theorem ofJson_eq_of_edits_returning :
    Relation.EqvGen Json.Edit returningProgram returningProgramWithRange ∧
      Node.ofJson returningProgram = Node.ofJson returningProgramWithRange := by
  have hreturn : Json.Members.fields [("type", .string "ReturnStatement")] =
      [("argument", .optionalNode)] := fieldsOfType_name .returnStatement
  have hprogram (body : Json) : Json.Members.fields [("type", .string "Program"), ("body", body)] =
      [("body", .nodes)] := fieldsOfType_name .program
  have hprogram' (body : Json) : Json.Members.fields [("body", body), ("type", .string "Program")] =
      [("body", .nodes)] := fieldsOfType_name .program
  -- the null goes, the members change places, and a range is added
  have hnull : Json.Edit
      (.object ([("type", .string "ReturnStatement")] ++ ("argument", .null) :: []))
      (.object ([("type", .string "ReturnStatement")] ++ [])) :=
    .dropNull (by simp) (by simp) (by simp [hreturn])
  have hitem : Json.Edit returningProgram
      (.object [("type", .string "Program"),
        ("body", .array [.object [("type", .string "ReturnStatement")]])]) := by
    refine @Json.Edit.item [("type", .string "Program")] [] "body" .nodes [] [] _ _ ?_ (.inl rfl)
      hnull
    rw [List.singleton_append, hprogram]
    exact List.mem_singleton_self _
  have horder : Json.Edit
      (.object [("type", .string "Program"),
        ("body", .array [.object [("type", .string "ReturnStatement")]])])
      (.object [("body", .array [.object [("type", .string "ReturnStatement")]]),
        ("type", .string "Program")]) :=
    .reorder (by simp) (.swap _ _ [])
  have hrange : Json.Edit
      (.object [("body", .array [.object [("type", .string "ReturnStatement")]]),
        ("type", .string "Program")]) returningProgramWithRange := by
    refine @Json.Edit.replace [] [] [("range", .array [.number (.int 0), .number (.int 7)])]
      [("body", .array [.object [("type", .string "ReturnStatement")]]),
        ("type", .string "Program")] (by simp) ?_
    simp [Json.Members.Unread, hprogram']
  have hedits : Relation.EqvGen Json.Edit returningProgram returningProgramWithRange :=
    .trans _ _ _ (.rel _ _ hitem) (.trans _ _ _ (.rel _ _ horder) (.rel _ _ hrange))
  exact ⟨hedits, ofJson_eq_of_edits hedits⟩

end Estree
