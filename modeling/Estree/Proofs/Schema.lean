import Estree.Proofs.Encoding

namespace Estree

-- What a member of a node object holds.
inductive FieldType where
  | node
  | optionalNode
  | nodes
  | optionalNodes
  | string
  | flag (default : Bool)
  -- One of some names, which may be missing if there is a default.
  | variant (names : List String) (default : Option String)
  | regex
  | literalValue

-- The members that are read of the objects of a kind, besides the type.
def Kind.fields : Kind → List (String × FieldType)
  | .program => [("body", .nodes)]
  | .emptyStatement => []
  | .expressionStatement => [("expression", .node)]
  | .blockStatement => [("body", .nodes)]
  | .returnStatement => [("argument", .optionalNode)]
  | .variableDeclaration =>
    [("kind", .variant ["var", "let", "const"] none), ("declarations", .nodes)]
  | .variableDeclarator => [("id", .node), ("init", .optionalNode)]
  | .withStatement => [("object", .node), ("body", .node)]
  | .ifStatement => [("test", .node), ("consequent", .node), ("alternate", .optionalNode)]
  | .forStatement =>
    [("init", .optionalNode), ("test", .optionalNode), ("update", .optionalNode), ("body", .node)]
  | .forInStatement => [("left", .node), ("right", .node), ("body", .node), ("each", .flag false)]
  | .whileStatement => [("test", .node), ("body", .node)]
  | .doWhileStatement => [("body", .node), ("test", .node)]
  | .breakStatement => [("label", .optionalNode)]
  | .continueStatement => [("label", .optionalNode)]
  | .labeledStatement => [("label", .node), ("body", .node)]
  | .tryStatement => [("block", .node), ("handler", .optionalNode), ("finalizer", .optionalNode)]
  | .catchClause => [("param", .optionalNode), ("guard", .optionalNode), ("body", .node)]
  | .throwStatement => [("argument", .node)]
  | .switchStatement => [("discriminant", .node), ("cases", .nodes)]
  | .switchCase => [("test", .optionalNode), ("consequent", .nodes)]
  | .debuggerStatement => []
  | .functionDeclaration | .functionExpression =>
    [("id", .optionalNode), ("params", .nodes), ("body", .node), ("generator", .flag false),
      ("async", .flag false)]
  | .arrowFunctionExpression => [("params", .nodes), ("body", .node), ("async", .flag false)]
  | .yieldExpression => [("argument", .optionalNode), ("delegate", .flag false)]
  | .awaitExpression => [("argument", .optionalNode), ("all", .flag false)]
  | .identifier => [("name", .string)]
  | .literal => [("value", .literalValue), ("regex", .regex)]
  | .thisExpression => []
  | .binaryExpression | .logicalExpression | .assignmentExpression =>
    [("operator", .string), ("left", .node), ("right", .node)]
  | .memberExpression => [("object", .node), ("property", .node), ("computed", .flag false)]
  | .callExpression => [("callee", .node), ("arguments", .nodes)]
  | .newExpression => [("callee", .node), ("arguments", .optionalNodes)]
  | .sequenceExpression => [("expressions", .nodes)]
  | .unaryExpression => [("operator", .string), ("argument", .node), ("prefix", .flag true)]
  | .updateExpression => [("operator", .string), ("argument", .node), ("prefix", .flag false)]
  | .conditionalExpression => [("test", .node), ("consequent", .node), ("alternate", .node)]
  | .spreadElement | .spreadElementPattern | .spreadProperty | .spreadPropertyPattern =>
    [("argument", .node)]
  | .property =>
    [("key", .node), ("value", .node), ("kind", .variant ["init", "get", "set"] (some "init")),
      ("method", .flag false)]
  | .propertyPattern => [("key", .node), ("pattern", .node)]
  | .path => [("body", .node)]
  | .moduleDeclaration => [("id", .node), ("source", .optionalNode), ("body", .optionalNode)]
  | .moduleSpecifier => [("value", .string)]
  | .importSpecifier | .exportSpecifier => [("id", .node), ("name", .optionalNode)]
  | .exportBatchSpecifier => []

-- The members that are read of the objects of a type. Of a type without a form of its own none is.
def fieldsOfType (type : String) : List (String × FieldType) :=
  match Kind.ofName? type with
  | some kind => kind.fields
  | none => []

namespace Json

def isString : Json → Bool
  | .string _ => true
  | _ => false

-- Whether a value is neither an array nor an object.
def isPrimitive : Json → Bool
  | .array _ | .object _ => false
  | _ => true

-- The variant that a value names: a text, or an object whose only member is null.
def variant? : Json → Option String
  | .string name => some name
  | .object [(name, .null)] => some name
  | _ => none

-- A regular expression: an object with a pattern and maybe flags, or an array of these.
def IsRegex : Json → Prop
  | .object members =>
    "pattern" ∈ members.map Prod.fst ∧
      ∀ member ∈ members, member.1 = "pattern" ∨ member.1 = "flags" → member.2.isString = true
  | .array items => (items.length = 1 ∨ items.length = 2) ∧ ∀ item ∈ items, item.isString = true
  | _ => False

mutual

-- The schema: a node object has a type and the members that go with it.
inductive IsNode : Json → Prop where
  | object {members : Members} {type : String} (htype : members.lookup "type" = some (.string type))
      (hfields : ∀ field ∈ fieldsOfType type, Admits members field.2 (members.present field.1)) :
      IsNode (.object members)

-- What a member of an object may be. A null counts as no member.
inductive Admits : Members → FieldType → Option Json → Prop where
  | node {members : Members} {value : Json} (hvalue : IsNode value) :
      Admits members .node (some value)
  | noNode {members : Members} : Admits members .optionalNode none
  | optionalNode {members : Members} {value : Json} (hvalue : IsNode value) :
      Admits members .optionalNode (some value)
  | nodes {members : Members} {items : List Json} (hitems : ∀ item ∈ items, IsNode item) :
      Admits members .nodes (some (.array items))
  | noNodes {members : Members} : Admits members .optionalNodes none
  | optionalNodes {members : Members} {items : List Json} (hitems : ∀ item ∈ items, IsNode item) :
      Admits members .optionalNodes (some (.array items))
  | string {members : Members} {text : String} : Admits members .string (some (.string text))
  | noFlag {members : Members} {default : Bool} : Admits members (.flag default) none
  | flag {members : Members} {default value : Bool} :
      Admits members (.flag default) (some (.bool value))
  | noVariant {members : Members} {names : List String} {default : String} :
      Admits members (.variant names (some default)) none
  | variant {members : Members} {names : List String} {default : Option String} {value : Json}
      {name : String} (hvalue : value.variant? = some name) (hname : name ∈ names) :
      Admits members (.variant names default) (some value)
  | noRegex {members : Members} : Admits members .regex none
  | regex {members : Members} {value : Json} (hvalue : value.IsRegex) :
      Admits members .regex (some value)
  | noValue {members : Members} : Admits members .literalValue none
  | primitive {members : Members} {value : Json} (hvalue : value.isPrimitive = true) :
      Admits members .literalValue (some value)
  -- Beside a regular expression the value does not matter.
  | besideRegex {members : Members} {value regex : Json}
      (hregex : members.present "regex" = some regex) :
      Admits members .literalValue (some value)

end

-- A regular expression as an object of its pattern and its flags, which are empty if left out.
-- Among members of one name the last one counts.
def normalRegex : Json → Json
  | .object members =>
    .object [("pattern", (members.reverse.lookup "pattern").getD .null),
      ("flags", (members.reverse.lookup "flags").getD (.string ""))]
  | .array [pattern] => .object [("pattern", pattern), ("flags", .string "")]
  | .array [pattern, flags] => .object [("pattern", pattern), ("flags", flags)]
  | _ => .null

-- The value of a literal, numbers being doubles. One that is not a primitive is of no interest.
def normalLiteral : Json → Json
  | .number value => if value.toFloat.isFinite then .number (.float value.toFloat) else .null
  | .array _ | .object _ => .null
  | value => value

end Json

-- A member of a normal form, given the member and its own normal form.
def FieldType.normal (value part : Option Json) : FieldType → Json
  | .node | .optionalNode | .nodes | .optionalNodes => part.getD .null
  | .string => value.getD .null
  | .flag default => value.getD (.bool default)
  | .variant _ default => .string ((value.bind Json.variant?).getD (default.getD ""))
  | .regex => (value.map Json.normalRegex).getD .null
  | .literalValue => (value.map Json.normalLiteral).getD .null

namespace Json

theorem Members.sizeOf_lt_of_mem {members : Members} {member : String × Json}
    (h : member ∈ members) : sizeOf member.2 < sizeOf members := by
  have hmember := List.sizeOf_lt_of_mem h
  obtain ⟨name, value⟩ := member
  simp at hmember ⊢
  omega

theorem Members.sizeOf_lt_of_present {members : Members} {name : String} {value : Json}
    (h : members.present name = some value) : sizeOf value < sizeOf members := by
  obtain ⟨found, hfound, hvalue⟩ := Option.bind_eq_some_iff.mp h
  cases found with
  | null => cases hvalue
  | _ =>
    cases hvalue
    exact sizeOf_lt_of_lookup hfound

-- A node object with the members that are read, in a fixed order and with nothing left out.
def normalForm : Json → Json
  | .array items => .array (items.map normalForm)
  | .object members =>
    let parts := members.map fun member => (member.1, normalForm member.2)
    match members.lookup "type" with
    | some (.string type) =>
      .object (("type", .string type) :: (fieldsOfType type).map fun field =>
        (field.1, field.2.normal (Members.present members field.1) (Members.present parts field.1)))
    | _ => .object parts
  | value => value
termination_by value => sizeOf value
decreasing_by
  · have := List.sizeOf_lt_of_mem ‹_ ∈ items›
    simp
    omega
  · have := Members.sizeOf_lt_of_mem ‹_ ∈ members›
    simp
    omega

theorem normalForm_array (items : List Json) :
    (array items).normalForm = .array (items.map normalForm) := by
  rw [normalForm]

theorem notNull_normalForm (value : Json) :
    value.normalForm.notNull = value.notNull.map normalForm := by
  cases value with
  | object members =>
    change _ = some (object members).normalForm
    rw [normalForm]
    split <;> rfl
  | array items =>
    change _ = some (array items).normalForm
    rw [normalForm_array]
    rfl
  | _ => simp [notNull, normalForm]

-- A member of the parts in normal form is the normal form of the member.
theorem Members.present_map_normalForm (members : Members) (name : String) :
    present (members.map fun member => (member.1, member.2.normalForm)) name =
      (members.present name).map normalForm := by
  induction members with
  | nil => rfl
  | cons member members ih =>
    obtain ⟨other, value⟩ := member
    rw [List.map_cons, present_cons, present_cons, ih, notNull_normalForm]
    split <;> rfl

theorem normalForm_object {members : Members} {type : String}
    (htype : members.lookup "type" = some (.string type)) :
    (object members).normalForm =
      .object (("type", .string type) :: (fieldsOfType type).map fun field =>
        (field.1, field.2.normal (members.present field.1)
          ((members.present field.1).map normalForm))) := by
  rw [normalForm, htype]
  simp only [Members.present_map_normalForm]

end Json

end Estree
