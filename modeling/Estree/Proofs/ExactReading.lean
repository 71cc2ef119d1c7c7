import Estree.Proofs.Schema
import Estree.Proofs.Templates

namespace Estree

-- Reading is exact: it succeeds on what is accepted and on nothing else, and what was read is
-- written in normal form.
structure Exact {ε β γ : Type} (outcome : Except ε β) (accepted : Prop) (write : β → γ)
    (normal : γ) : Prop where
  ok_iff : (∃ result, outcome = .ok result) ↔ accepted
  write_eq : ∀ result, outcome = .ok result → write result = normal

namespace Exact

variable {ε β γ : Type} {outcome : Except ε β} {accepted : Prop} {write : β → γ} {normal : γ}

theorem ok {result : β} (haccepted : accepted) (hwrite : write result = normal) :
    Exact (.ok result : Except ε β) accepted write normal := by
  refine ⟨⟨fun _ => haccepted, fun _ => ⟨result, rfl⟩⟩, ?_⟩
  rintro _ ⟨⟩
  exact hwrite

theorem error {cause : ε} (h : ¬ accepted) : Exact (.error cause) accepted write normal := by
  refine ⟨⟨?_, fun haccepted => absurd haccepted h⟩, ?_⟩
  · rintro ⟨_, ⟨⟩⟩
  · rintro _ ⟨⟩

theorem congr (h : Exact outcome accepted write normal) {other : Prop} {form : γ}
    (haccepted : accepted ↔ other) (hnormal : normal = form) : Exact outcome other write form := by
  rw [← haccepted, ← hnormal]
  exact h

theorem accepted_of_ok (h : Exact outcome accepted write normal) {result : β}
    (hok : outcome = .ok result) : accepted :=
  h.ok_iff.mp ⟨result, hok⟩

theorem not_accepted_of_error (h : Exact outcome accepted write normal) {cause : ε}
    (herror : outcome = .error cause) : ¬ accepted := by
  intro haccepted
  obtain ⟨result, hok⟩ := h.ok_iff.mpr haccepted
  rw [herror] at hok
  cases hok

-- What is made of the result afterwards may be written otherwise.
theorem map (h : Exact outcome accepted write normal) {β' γ' : Type} (f : β → β')
    (write' : β' → γ') (g : γ → γ') (hwrite : ∀ result, write' (f result) = g (write result)) :
    Exact (f <$> outcome) accepted write' (g normal) := by
  cases houtcome : outcome with
  | error cause => exact .error (h.not_accepted_of_error houtcome)
  | ok result =>
    refine .ok (h.accepted_of_ok houtcome) ?_
    rw [hwrite, h.write_eq result houtcome]

theorem mapError (h : Exact outcome accepted write normal) {ε' : Type} (f : ε → ε') :
    Exact (outcome.mapError f) accepted write normal := by
  cases houtcome : outcome with
  | error cause => exact .error (h.not_accepted_of_error houtcome)
  | ok result => exact .ok (h.accepted_of_ok houtcome) (h.write_eq result houtcome)

theorem returned (h : Exact outcome accepted write normal) :
    Exact (outcome >>= pure) accepted write normal := by
  rwa [bind_pure]

-- Nothing is read if what comes next always fails.
theorem bind_error {β' : Type} {next : β → Except ε β'} {cause : ε}
    {write : β' → γ} (hnext : ∀ result, next result = .error cause) (h : ¬ accepted) :
    Exact (outcome >>= next) accepted write normal := by
  cases outcome with
  | error first => exact .error h
  | ok result =>
    rw [ok_bind, hnext]
    exact .error h

-- A list is read item by item.
theorem mapM {ι : Type} {read : ι → Except ε β} {accepted : ι → Prop} {normal : ι → γ}
    {items : List ι} (h : ∀ item ∈ items, Exact (read item) (accepted item) write (normal item)) :
    Exact (items.mapM read) (∀ item ∈ items, accepted item) (List.map write)
      (items.map normal) := by
  induction items with
  | nil => exact .ok (by simp) rfl
  | cons item items ih =>
    rw [List.forall_mem_cons] at h
    have hitems := ih h.2
    rw [List.mapM_cons]
    cases hitem : read item with
    | error cause =>
      refine .error fun haccepted => ?_
      exact h.1.not_accepted_of_error hitem (haccepted item (by simp))
    | ok result =>
      rw [ok_bind]
      cases hrest : items.mapM read with
      | error cause =>
        refine .error fun haccepted => ?_
        exact hitems.not_accepted_of_error hrest fun other hother =>
          haccepted other (List.mem_cons_of_mem _ hother)
      | ok results =>
        refine .ok (List.forall_mem_cons.mpr
          ⟨h.1.accepted_of_ok hitem, hitems.accepted_of_ok hrest⟩) ?_
        rw [List.map_cons, List.map_cons, h.1.write_eq result hitem, hitems.write_eq results hrest]

end Exact

namespace Json

-- What needs a text first is read from texts only.
theorem exact_readString_bind {β γ : Type} {value : Json} {next : String → Except Mismatch β}
    {accepted : Prop} {write : β → γ} {normal : γ}
    (hnext : ∀ text, value = .string text → Exact (next text) accepted write normal)
    (hother : value.isString = false → ¬ accepted) :
    Exact (value.readString >>= next) accepted write normal := by
  cases value with
  | string text => exact hnext text rfl
  | _ => exact .error (hother rfl)

-- The search for a variant by its name.
theorem exact_lookup {ε β : Type} (all : List β) (name : β → String) (chosen : String) (cause : ε) :
    Exact (match (all.map fun variant => (name variant, variant)).lookup chosen with
        | some variant => .ok variant
        | none => .error cause)
      (chosen ∈ all.map name) (fun variant => Json.string (name variant)) (.string chosen) := by
  cases hlookup : (all.map fun variant => (name variant, variant)).lookup chosen with
  | none =>
    refine .error fun hmem => ?_
    obtain ⟨variant, hvariant, rfl⟩ := List.mem_map.mp hmem
    have hne := List.lookup_eq_none_iff.mp hlookup (name variant, variant)
      (List.mem_map_of_mem hvariant)
    simp at hne
  | some variant =>
    obtain ⟨before, after, hall, -⟩ := List.lookup_eq_some_iff.mp hlookup
    have hmem : (chosen, variant) ∈ all.map fun variant => (name variant, variant) := by simp [hall]
    obtain ⟨_, hvariant, ⟨⟩⟩ := List.mem_map.mp hmem
    exact .ok (List.mem_map_of_mem hvariant) rfl

theorem exact_readVariant {β : Type} (all : List β) (name : β → String) (value : Json)
    (otherwise : String) :
    Exact (readVariant (all.map fun variant => (name variant, variant)) value)
      (∃ chosen, value.variant? = some chosen ∧ chosen ∈ all.map name)
      (fun variant => Json.string (name variant)) (.string (value.variant?.getD otherwise)) := by
  unfold readVariant
  split
  · rename_i chosen
    exact (exact_lookup all name chosen _).congr (by simp [variant?]) rfl
  · rename_i chosen inner
    have hnamed := exact_lookup all name chosen (Mismatch.unknownVariant chosen
      ((all.map fun variant => (name variant, variant)).map Prod.fst))
    cases inner with
    | null => exact hnamed.returned.congr (by simp [variant?]) rfl
    | _ => exact .bind_error (fun _ => rfl) (by simp [variant?])
  · rename_i members hsingle
    refine .error ?_
    match members with
    | [] => simp [variant?]
    | [(chosen, inner)] => exact absurd rfl (hsingle chosen inner)
    | _ :: _ :: _ => simp [variant?]
  · rename_i hstring hsingle hobject
    refine .error ?_
    cases value with
    | string chosen => exact absurd rfl (hstring chosen)
    | object members => exact absurd rfl (hobject members)
    | _ => simp [variant?]

end Json

namespace RegexLiteral

-- Of several members of one name the last one is kept, and all of them are texts.
theorem exact_readMembers (pattern flags : Option String) (members : Json.Members) :
    Exact (readMembers pattern flags members)
      (∀ member ∈ members, member.1 = "pattern" ∨ member.1 = "flags" → member.2.isString = true)
      (fun found => (found.1.map Json.string, found.2.map Json.string))
      ((members.reverse.lookup "pattern").or (pattern.map .string),
        (members.reverse.lookup "flags").or (flags.map .string)) := by
  induction members generalizing pattern flags with
  | nil => exact .ok (by simp) rfl
  | cons member members ih =>
    obtain ⟨name, value⟩ := member
    rw [readMembers]
    simp only [List.forall_mem_cons, List.reverse_cons, List.lookup_append, List.lookup_cons,
      List.lookup_nil]
    split
    · subst name
      refine Json.exact_readString_bind ?_ (by simp_all)
      rintro text rfl
      exact (ih (some text) flags).congr (by simp [Json.isString]) (by simp)
    · split
      · subst name
        refine Json.exact_readString_bind ?_ (by simp_all)
        rintro text rfl
        exact (ih pattern (some text)).congr (by simp [Json.isString]) (by simp)
      · rename_i hpattern hflags
        refine (ih pattern flags).congr ?_ ?_
        · simp [hpattern, hflags]
        · simp [beq_false_of_ne (Ne.symm hpattern), beq_false_of_ne (Ne.symm hflags)]

theorem mem_names_iff (members : Json.Members) (name : String) :
    name ∈ members.map Prod.fst ↔ (members.reverse.lookup name).isSome = true := by
  rw [← List.mem_reverse, ← List.map_reverse]
  induction members.reverse with
  | nil => simp
  | cons member members ih =>
    rw [List.map_cons, List.mem_cons, List.lookup_cons, ih]
    by_cases h : name = member.1
    · simp [h]
    · simp [h, beq_false_of_ne h]

theorem exact_ofJson (value : Json) :
    Exact (ofJson value) value.IsRegex toJson value.normalRegex := by
  match value with
  | .object members =>
    have hmembers := exact_readMembers none none members
    rw [ofJson]
    cases hread : readMembers none none members with
    | error cause => exact .error fun h => hmembers.not_accepted_of_error hread h.2
    | ok found =>
      obtain ⟨pattern, flags⟩ := found
      have htexts := hmembers.accepted_of_ok hread
      have hfound := hmembers.write_eq _ hread
      simp only [Option.map_none, Option.or_none, Prod.mk.injEq] at hfound
      have hnamed := mem_names_iff members "pattern"
      rw [← hfound.1] at hnamed
      rw [ok_bind]
      cases pattern with
      | none => exact .error fun h => by simpa using hnamed.mp h.1
      | some pattern =>
        refine .ok ⟨hnamed.mpr rfl, htexts⟩ ?_
        cases flags <;> simp [toJson, Json.normalRegex, ← hfound.1, ← hfound.2]
  | .array [] => exact .error (by simp [Json.IsRegex])
  | .array [pattern] =>
    rw [ofJson]
    refine Json.exact_readString_bind ?_ (by simp_all [Json.IsRegex])
    rintro text rfl
    exact .ok (by simp [Json.IsRegex, Json.isString]) rfl
  | .array (pattern :: flags :: rest) =>
    rw [ofJson]
    refine Json.exact_readString_bind ?_ (by simp_all [Json.IsRegex])
    rintro text rfl
    refine Json.exact_readString_bind ?_ (by simp_all [Json.IsRegex])
    rintro text' rfl
    cases rest with
    | nil => exact .ok (by simp [Json.IsRegex, Json.isString]) rfl
    | cons extra rest => exact .error (by simp [Json.IsRegex])
  | .null | .bool _ | .number _ | .string _ => exact .error id

end RegexLiteral

namespace LiteralValue

-- Beside a regular expression every value is accepted.
theorem exact_ofJson (isRegex : Bool) (value : Json) :
    Exact (ofJson isRegex value) (value.isPrimitive = true ∨ isRegex = true) toJson
      value.normalLiteral := by
  cases value with
  | array | object =>
    cases isRegex with
    | false => exact .error (by simp [Json.isPrimitive])
    | true => exact .ok (.inr rfl) rfl
  | _ => exact .ok (.inl rfl) rfl

end LiteralValue

namespace Fields

open Json (Members Admits)

variable {α : Type} {members : Members} {read : Json → Except DecodeError α} {encode : α → Json}

-- A member is read as its type says.
abbrev ReadsField {β : Type} (members : Members) (name : String) (type : FieldType)
    (outcome : Except DecodeError β) (write : β → Json) : Prop :=
  Exact outcome (Admits members type (members.present name)) write
    (type.normal (members.present name) ((members.present name).map Json.normalForm))

section Accessors

variable (hread : ∀ value, sizeOf value < sizeOf members →
  Exact (read value) value.IsNode encode value.normalForm) (name : String)

include hread

theorem exact_present {value : Json} (h : members.present name = some value) :
    Exact (read value) value.IsNode encode value.normalForm :=
  hread value (Members.sizeOf_lt_of_present h)

theorem exact_items {items : List Json} (h : members.present name = some (.array items)) :
    Exact (items.mapM read) (∀ item ∈ items, item.IsNode) (List.map encode)
      (items.map Json.normalForm) :=
  .mapM fun item hitem =>
    hread item (sizeOf_lt_of_mem_array hitem (Members.sizeOf_lt_of_present h))

theorem exact_node : ReadsField members name .node ((reading members read).node name) encode := by
  rw [node_reading, ReadsField]
  cases h : members.present name with
  | none => exact .error nofun
  | some value =>
    exact (exact_present hread name h).congr ⟨.node, fun | .node hvalue => hvalue⟩ rfl

theorem exact_optionalNode :
    ReadsField members name .optionalNode ((reading members read).optionalNode name)
      fun part => Form.orNull (part.map encode) := by
  rw [optionalNode_reading, ReadsField]
  cases h : members.present name with
  | none => exact .ok .noNode rfl
  | some value =>
    have hvalue := (exact_present hread name h).map some (fun part => Form.orNull (part.map encode))
      id fun _ => rfl
    exact hvalue.congr ⟨.optionalNode, fun | .optionalNode hvalue => hvalue⟩ rfl

theorem exact_nodes :
    ReadsField members name .nodes ((reading members read).nodes name)
      fun parts => .array (parts.map encode) := by
  rw [nodes_reading, ReadsField]
  cases h : members.present name with
  | none => exact .error nofun
  | some value =>
    cases value with
    | array items =>
      have hitems := (exact_items hread name h).map id (fun parts => .array (parts.map encode))
        Json.array fun _ => rfl
      rw [id_map] at hitems
      refine hitems.congr ⟨.nodes, fun | .nodes hitems => hitems⟩ ?_
      rw [Option.map_some, Json.normalForm_array]
      rfl
    | _ => exact .error nofun

theorem exact_optionalNodes :
    ReadsField members name .optionalNodes ((reading members read).optionalNodes name)
      fun parts => Form.orNull (parts.map fun parts => .array (parts.map encode)) := by
  rw [optionalNodes_reading, ReadsField]
  cases h : members.present name with
  | none => exact .ok .noNodes rfl
  | some value =>
    cases value with
    | array items =>
      have hitems := (exact_items hread name h).map some
        (fun parts => Form.orNull (parts.map fun parts => .array (parts.map encode)))
        Json.array fun _ => rfl
      refine hitems.congr ⟨.optionalNodes, fun | .optionalNodes hitems => hitems⟩ ?_
      rw [Option.map_some, Json.normalForm_array]
      rfl
    | _ => exact .error nofun

omit hread

theorem exact_string :
    ReadsField members name .string ((reading members read).string name) Json.string := by
  rw [string_reading, ReadsField, Members.present]
  cases h : members.lookup name with
  | none => exact .error (by rintro ⟨⟩)
  | some value =>
    cases value with
    | string text => exact .ok .string rfl
    | _ => exact .error (by rintro ⟨⟩)

theorem exact_flag (default : Bool) :
    ReadsField members name (.flag default) ((reading members read).flag name default)
      Json.bool := by
  rw [flag_reading, ReadsField]
  cases h : members.present name with
  | none => exact .ok .noFlag rfl
  | some value =>
    cases value with
    | bool value => exact .ok .flag rfl
    | _ => exact .error nofun

theorem admits_variant_iff {value : Json} {names : List String} {default : Option String} :
    (∃ chosen, value.variant? = some chosen ∧ chosen ∈ names) ↔
      Admits members (.variant names default) (some value) := by
  constructor
  · rintro ⟨chosen, hvalue, hname⟩
    exact .variant hvalue hname
  · intro h
    cases h with
    | variant hvalue hname => exact ⟨_, hvalue, hname⟩

theorem exact_variableKind :
    ReadsField members name (.variant ["var", "let", "const"] none)
      ((reading members read).required name VariableKind.ofJson)
      fun kind => .string kind.keyword := by
  rw [required_reading, ReadsField]
  cases h : members.present name with
  | none => exact .error nofun
  | some value =>
    have hkind := Json.exact_readVariant VariableKind.all VariableKind.keyword value ""
    exact (hkind.mapError DecodeError.mismatch).congr admits_variant_iff rfl

theorem exact_propertyKind :
    ReadsField members name (.variant ["init", "get", "set"] (some "init"))
      ((reading members read).optional name PropertyKind.ofJson)
      fun kind => .string (kind.getD default).name := by
  rw [optional_reading, ReadsField]
  cases h : members.present name with
  | none => exact .ok .noVariant rfl
  | some value =>
    have hkind := (Json.exact_readVariant PropertyKind.all PropertyKind.name value "init").map some
      (fun kind => .string (kind.getD default).name) id fun _ => rfl
    exact (hkind.mapError DecodeError.mismatch).congr admits_variant_iff rfl

theorem exact_regex :
    ReadsField members name .regex ((reading members read).optional name RegexLiteral.ofJson)
      fun regex => Form.orNull (regex.map RegexLiteral.toJson) := by
  rw [optional_reading, ReadsField]
  cases h : members.present name with
  | none => exact .ok .noRegex rfl
  | some value =>
    have hregex := (RegexLiteral.exact_ofJson value).map some
      (fun regex => Form.orNull (regex.map RegexLiteral.toJson)) id fun _ => rfl
    exact (hregex.mapError DecodeError.mismatch).congr
      ⟨Admits.regex, fun | .regex hvalue => hvalue⟩ rfl

theorem isSome_of_optional {β : Type} {ofJson : Json → Except Json.Mismatch β} {result : Option β}
    (h : (reading members read).optional name ofJson = .ok result) :
    result.isSome = (members.present name).isSome := by
  rw [optional_reading] at h
  cases hpresent : members.present name with
  | none =>
    rw [hpresent] at h
    cases h
    rfl
  | some value =>
    rw [hpresent] at h
    change ((some <$> ofJson value).mapError DecodeError.mismatch) = _ at h
    cases hvalue : ofJson value with
    | error cause =>
      rw [hvalue] at h
      cases h
    | ok found =>
      rw [hvalue] at h
      cases h
      rfl

-- The value of a literal, once it is known whether there is a regular expression.
theorem exact_literalValue :
    ReadsField members name .literalValue
      (LiteralValue.ofJson (members.present "regex").isSome ((members.lookup name).getD .null))
      LiteralValue.toJson := by
  have hvalue : (members.lookup name).getD .null = (members.present name).getD .null := by
    rw [Members.present]
    cases members.lookup name with
    | none => rfl
    | some value => cases value <;> rfl
  rw [hvalue, ReadsField]
  cases members.present name with
  | none => exact .ok .noValue rfl
  | some value =>
    refine (LiteralValue.exact_ofJson _ value).congr ?_ rfl
    rw [Option.isSome_iff_exists]
    constructor
    · rintro (hvalue | ⟨regex, hregex⟩)
      · exact .primitive hvalue
      · exact .besideRegex hregex
    · intro h
      cases h with
      | primitive hvalue => exact .inl hvalue
      | besideRegex hregex => exact .inr ⟨_, hregex⟩

end Accessors

end Fields

namespace Form

open Json (Members Admits)
open Fields (reading)

variable {α : Type} {members : Members} {read : Json → Except DecodeError α} {encode : α → Json}

-- A construct is read as the schema says, and some of its members are known already.
abbrev ReadsFields (members : Members) (encode : α → Json) (outcome : Except DecodeError (Form α))
    (fields : List (String × FieldType)) (written : Members) : Prop :=
  Exact outcome (∀ field ∈ fields, Admits members field.2 (members.present field.1))
    (fun form => (form.map encode).typedMembers)
    (written ++ fields.map fun field => (field.1, field.2.normal (members.present field.1)
      ((members.present field.1).map Json.normalForm)))

theorem ReadsFields.done {form : Form α} {written : Members}
    (h : (form.map encode).typedMembers = written) :
    ReadsFields members encode (pure form) [] written :=
  .ok (by simp) (by simp [h])

theorem ReadsFields.next {β : Type} {name : String} {type : FieldType}
    {outcome : Except DecodeError β} {write : β → Json} {rest : β → Except DecodeError (Form α)}
    {fields : List (String × FieldType)} {written : Members}
    (hfield : Fields.ReadsField members name type outcome write)
    (hrest : ∀ result, ReadsFields members encode (rest result) fields
      (written ++ [(name, write result)])) :
    ReadsFields members encode (outcome >>= rest) ((name, type) :: fields) written := by
  cases houtcome : outcome with
  | error cause =>
    exact .error fun h => hfield.not_accepted_of_error houtcome (h (name, type) (by simp))
  | ok result =>
    rw [ok_bind]
    refine (hrest result).congr ?_ ?_
    · simp [hfield.accepted_of_ok houtcome]
    · simp [hfield.write_eq result houtcome]

section Reading

open ReadsFields Fields

variable (hread : ∀ value, sizeOf value < sizeOf members →
  Exact (read value) value.IsNode encode value.normalForm)

include hread

-- The members are read in the order of the schema. Kinds are taken together by what they read.
theorem readsFields_ofFields {kind : Kind} (hkind : kind ≠ .literal) :
    ReadsFields members encode (ofFields kind (reading members read)) kind.fields
      [("type", .string kind.name)] := by
  have hnode (name : String) := exact_node hread name
  have hoptional (name : String) := exact_optionalNode hread name
  have hnodes (name : String) := exact_nodes hread name
  cases kind
  case literal => exact absurd rfl hkind
  case' emptyStatement | debuggerStatement | thisExpression | exportBatchSpecifier =>
    refine done ?_
  case' program | blockStatement | sequenceExpression =>
    refine next (hnodes _) fun _ => done ?_
  case' expressionStatement | throwStatement | path | spreadElement | spreadElementPattern |
      spreadProperty | spreadPropertyPattern =>
    refine next (hnode _) fun _ => done ?_
  case' returnStatement | breakStatement | continueStatement =>
    refine next (hoptional _) fun _ => done ?_
  case' identifier | moduleSpecifier =>
    refine next (exact_string _) fun _ => done ?_
  case' withStatement | whileStatement | doWhileStatement | labeledStatement | propertyPattern =>
    refine next (hnode _) fun _ => next (hnode _) fun _ => done ?_
  case' variableDeclarator | importSpecifier | exportSpecifier =>
    refine next (hnode _) fun _ => next (hoptional _) fun _ => done ?_
  case' switchStatement | callExpression =>
    refine next (hnode _) fun _ => next (hnodes _) fun _ => done ?_
  case' switchCase =>
    refine next (hoptional _) fun _ => next (hnodes _) fun _ => done ?_
  case' yieldExpression | awaitExpression =>
    refine next (hoptional _) fun _ => next (exact_flag _ _) fun _ => done ?_
  case' ifStatement =>
    refine next (hnode _) fun _ => next (hnode _) fun _ => next (hoptional _) fun _ => done ?_
  case' conditionalExpression =>
    refine next (hnode _) fun _ => next (hnode _) fun _ => next (hnode _) fun _ => done ?_
  case' memberExpression =>
    refine next (hnode _) fun _ => next (hnode _) fun _ => next (exact_flag _ _) fun _ => done ?_
  case' tryStatement | moduleDeclaration =>
    refine next (hnode _) fun _ => next (hoptional _) fun _ => next (hoptional _) fun _ => done ?_
  case' catchClause =>
    refine next (hoptional _) fun _ => next (hoptional _) fun _ => next (hnode _) fun _ => done ?_
  case' arrowFunctionExpression =>
    refine next (hnodes _) fun _ => next (hnode _) fun _ => next (exact_flag _ _) fun _ => done ?_
  case' binaryExpression | logicalExpression | assignmentExpression =>
    refine next (exact_string _) fun _ => next (hnode _) fun _ => next (hnode _) fun _ => done ?_
  case' unaryExpression | updateExpression =>
    refine next (exact_string _) fun _ => next (hnode _) fun _ => next (exact_flag _ _) fun _ =>
      done ?_
  case' forStatement =>
    refine next (hoptional _) fun _ => next (hoptional _) fun _ => next (hoptional _) fun _ =>
      next (hnode _) fun _ => done ?_
  case' forInStatement =>
    refine next (hnode _) fun _ => next (hnode _) fun _ => next (hnode _) fun _ =>
      next (exact_flag _ _) fun _ => done ?_
  case' functionDeclaration | functionExpression =>
    refine next (hoptional _) fun _ => next (hnodes _) fun _ => next (hnode _) fun _ =>
      next (exact_flag _ _) fun _ => next (exact_flag _ _) fun _ => done ?_
  case' variableDeclaration =>
    refine next (exact_variableKind _) fun _ => next (hnodes _) fun _ => done ?_
  case' newExpression =>
    refine next (hnode _) fun _ => next (exact_optionalNodes hread _) fun _ => done ?_
  case' property =>
    refine next (hnode _) fun _ => next (hnode _) fun _ => next (exact_propertyKind _) fun _ =>
      next (exact_flag _ _) fun _ => done ?_
  case newExpression callee arguments =>
    cases arguments <;> simp [map, mapM, typedMembers, Form.members, kindName, kind?]
  all_goals simp [map, mapM, mapM_option_pure, typedMembers, Form.members, kindName, kind?]

omit hread in
-- A literal reads its members the other way round, since the value depends on the other one.
theorem readsFields_literal :
    ReadsFields members encode (ofFields .literal (reading members read)) Kind.literal.fields
      [("type", .string Kind.literal.name)] := by
  have hregex : ReadsField members "regex" .regex
    ((reading members read).optional "regex" RegexLiteral.ofJson) _ := exact_regex "regex"
  have hvalue : ReadsField members "value" .literalValue _ _ := exact_literalValue "value"
  rw [ReadsFields, Kind.fields, List.forall_mem_cons, List.forall_mem_singleton, ofFields]
  cases hfound : (reading members read).optional "regex" RegexLiteral.ofJson with
  | error cause => exact .error fun h => hregex.not_accepted_of_error hfound h.2
  | ok regex =>
    rw [ok_bind, isSome_of_optional "regex" hfound]
    change Exact (LiteralValue.ofJson (members.present "regex").isSome
      ((members.lookup "value").getD .null) >>= _) _ _ _
    cases hread : LiteralValue.ofJson (members.present "regex").isSome
      ((members.lookup "value").getD .null) with
    | error cause => exact .error fun h => hvalue.not_accepted_of_error hread h.1
    | ok value =>
      refine .ok ⟨hvalue.accepted_of_ok hread, hregex.accepted_of_ok hfound⟩ ?_
      simp only [List.map_cons, List.map_nil, ← hvalue.write_eq value hread,
        ← hregex.write_eq regex hfound]
      rfl

-- A kind that has no form of its own reads nothing but its name.
theorem readsFields_fieldsOfType (type : String) :
    ReadsFields members encode
      (match Kind.ofName? type with
        | some kind => ofFields kind (reading members read)
        | none => .ok (.unmodeled type))
      (fieldsOfType type) [("type", .string type)] := by
  rw [fieldsOfType]
  cases hkind : Kind.ofName? type with
  | none => exact done rfl
  | some kind =>
    rw [← Kind.name_of_ofName? hkind]
    by_cases hliteral : kind = .literal
    · subst kind
      exact readsFields_literal
    · exact readsFields_ofFields hread hliteral

theorem exact_ofObject :
    Exact (ofObject (reading members read)) (Json.object members).IsNode
      (fun form => (form.map encode).toJson) (Json.object members).normalForm := by
  unfold ofObject
  split
  · rename_i type htype
    have hfields := (readsFields_fieldsOfType hread type).map id
      (fun form => (form.map encode).toJson) Json.object fun _ => rfl
    rw [id_map] at hfields
    refine hfields.congr ⟨.object htype, ?_⟩ (Json.normalForm_object htype).symm
    rintro ⟨hother, hfields⟩
    cases htype.symm.trans hother
    exact hfields
  · rename_i value hstring htype
    refine .error ?_
    rintro ⟨hother, -⟩
    cases htype.symm.trans hother
    exact hstring _ rfl
  · rename_i htype
    refine .error ?_
    rintro ⟨hother, -⟩
    cases htype.symm.trans hother

end Reading

end Form

-- Exactly the values that the schema describes are read, and nothing that is read of them is lost:
-- the tree is written as their normal form.
theorem ofJson_accepts_schema (value : Json) :
    ((∃ tree, Node.ofJson value = .ok tree) ↔ value.IsNode) ∧
      ∀ tree, Node.ofJson value = .ok tree → tree.toJson = value.normalForm := by
  have hexact : Exact (Node.ofJson value) value.IsNode Node.toJson value.normalForm := by
    induction hsize : sizeOf value using Nat.strongRecOn generalizing value with
    | ind size ih =>
      subst size
      cases value with
      | object members =>
        have hread (part : Json) (hpart : sizeOf part < sizeOf members) :
            Exact (Node.ofJson part) part.IsNode Node.toJson part.normalForm :=
          ih (sizeOf part) (by simp; omega) part rfl
        rw [Node.ofJson_object]
        exact (Form.exact_ofObject hread).map Node.mk Node.toJson id
          fun form => Node.toJson_eq ⟨form⟩
      | _ =>
        rw [Node.ofJson]
        · exact .error (by rintro ⟨⟩)
        · rintro _ ⟨⟩
  exact ⟨hexact.ok_iff, hexact.write_eq⟩

end Estree
