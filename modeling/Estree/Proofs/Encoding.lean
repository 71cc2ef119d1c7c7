import Estree.Node.Builders
import Estree.Proofs.Fields
import Estree.Proofs.Parts
import Estree.Proofs.Positions

namespace Estree

variable {α : Type}

namespace RegexLiteral

def toJson (regex : RegexLiteral) : Json :=
  .object [("pattern", .string regex.pattern), ("flags", .string regex.flags)]

end RegexLiteral

namespace LiteralValue

-- JSON has no way to write a number that is not finite.
def toJson : LiteralValue → Json
  | .null => .null
  | .boolean value => .bool value
  | .number value => if value.isFinite then .number (.float value) else .null
  | .string value => .string value

end LiteralValue

namespace Form

-- A part that may be missing is null then.
def orNull (part : Option Json) : Json :=
  part.getD .null

-- The members of the object of a construct besides its type, given the objects of its parts.
def members : Form Json → Json.Members
  | .program body => [("body", .array body)]
  | .emptyStatement => []
  | .expressionStatement expression => [("expression", expression)]
  | .blockStatement body => [("body", .array body)]
  | .returnStatement argument => [("argument", orNull argument)]
  | .variableDeclaration kind declarations =>
    [("kind", .string kind.keyword), ("declarations", .array declarations)]
  | .variableDeclarator id init => [("id", id), ("init", orNull init)]
  | .withStatement object body => [("object", object), ("body", body)]
  | .ifStatement test consequent alternate =>
    [("test", test), ("consequent", consequent), ("alternate", orNull alternate)]
  | .forStatement init test update body =>
    [("init", orNull init), ("test", orNull test), ("update", orNull update), ("body", body)]
  | .forInStatement left right body each =>
    [("left", left), ("right", right), ("body", body), ("each", .bool each)]
  | .whileStatement test body => [("test", test), ("body", body)]
  | .doWhileStatement body test => [("body", body), ("test", test)]
  | .breakStatement label => [("label", orNull label)]
  | .continueStatement label => [("label", orNull label)]
  | .labeledStatement label body => [("label", label), ("body", body)]
  | .tryStatement block handler finalizer =>
    [("block", block), ("handler", orNull handler), ("finalizer", orNull finalizer)]
  | .catchClause param guard body =>
    [("param", orNull param), ("guard", orNull guard), ("body", body)]
  | .throwStatement argument => [("argument", argument)]
  | .switchStatement discriminant cases =>
    [("discriminant", discriminant), ("cases", .array cases)]
  | .switchCase test consequent => [("test", orNull test), ("consequent", .array consequent)]
  | .debuggerStatement => []
  | .functionDeclaration id params body generator async
  | .functionExpression id params body generator async =>
    [("id", orNull id), ("params", .array params), ("body", body),
      ("generator", .bool generator), ("async", .bool async)]
  | .arrowFunctionExpression params body async =>
    [("params", .array params), ("body", body), ("async", .bool async)]
  | .yieldExpression argument delegate =>
    [("argument", orNull argument), ("delegate", .bool delegate)]
  | .awaitExpression argument all => [("argument", orNull argument), ("all", .bool all)]
  | .identifier name => [("name", .string name)]
  | .literal value regex =>
    [("value", value.toJson), ("regex", orNull (regex.map RegexLiteral.toJson))]
  | .thisExpression => []
  | .binaryExpression operator left right
  | .logicalExpression operator left right
  | .assignmentExpression operator left right =>
    [("operator", .string operator), ("left", left), ("right", right)]
  | .memberExpression object key computed =>
    [("object", object), ("property", key), ("computed", .bool computed)]
  | .callExpression callee arguments => [("callee", callee), ("arguments", .array arguments)]
  | .newExpression callee arguments =>
    [("callee", callee), ("arguments", orNull (arguments.map .array))]
  | .sequenceExpression expressions => [("expressions", .array expressions)]
  | .unaryExpression operator argument leading
  | .updateExpression operator argument leading =>
    [("operator", .string operator), ("argument", argument), ("prefix", .bool leading)]
  | .conditionalExpression test consequent alternate =>
    [("test", test), ("consequent", consequent), ("alternate", alternate)]
  | .spreadElement argument
  | .spreadElementPattern argument
  | .spreadProperty argument
  | .spreadPropertyPattern argument => [("argument", argument)]
  | .property key value kind method =>
    [("key", key), ("value", value), ("kind", .string kind.name), ("method", .bool method)]
  | .propertyPattern key pattern => [("key", key), ("pattern", pattern)]
  | .path body => [("body", body)]
  | .moduleDeclaration id source body =>
    [("id", id), ("source", orNull source), ("body", orNull body)]
  | .moduleSpecifier value => [("value", .string value)]
  | .importSpecifier id name
  | .exportSpecifier id name => [("id", id), ("name", orNull name)]
  | .exportBatchSpecifier => []
  | .unmodeled _ => []

-- The members of the object of a construct with the type, which stands first.
def typedMembers (form : Form Json) : Json.Members :=
  ("type", .string form.kindName) :: form.members

def toJson (form : Form Json) : Json :=
  .object form.typedMembers

-- Whether the object of a construct says all about it. A kind that has a form of its own would be
-- read back as that form.
def isEncodable : Form α → Bool
  | .unmodeled kind => kind ∉ Kind.all.map Kind.name
  | .literal (.number value) _ => value.isFinite
  | _ => true

end Form

namespace VariableKind

theorem ofJson_keyword (kind : VariableKind) : ofJson (.string kind.keyword) = .ok kind := by
  cases kind <;> rfl

end VariableKind

namespace PropertyKind

theorem ofJson_name (kind : PropertyKind) : ofJson (.string kind.name) = .ok kind := by
  cases kind <;> rfl

end PropertyKind

namespace LiteralValue

theorem ofJson_toJson (isRegex : Bool) {value : LiteralValue}
    (h : ∀ number, value = .number number → number.isFinite = true) :
    ofJson isRegex value.toJson = .ok value := by
  cases value with
  | number number =>
    rw [toJson, if_pos (h number rfl)]
    rfl
  | _ => rfl

end LiteralValue

namespace Form

-- Of the parts that may be missing, those that are there are kept and the others are null.
theorem notNull_orNull_iff {part : Option Json} :
    (∀ value, part = some value → value.notNull = some value) ↔ (orNull part).notNull = part := by
  cases part <;> simp [orNull, Json.notNull]

theorem kindName_of_kind? {form : Form α} {kind : Kind} (h : form.kind? = some kind) :
    form.kindName = kind.name := by
  unfold kindName
  split
  · cases h
  · rw [h]
    rfl

theorem ofFields_literal (read : Json → Except DecodeError α) {value : LiteralValue}
    {regex : Option RegexLiteral} (h : (literal value regex : Form Json).isEncodable = true) :
    ofFields .literal (.reading (literal value regex).typedMembers read) =
      .ok (.literal value regex) := by
  have hregex : (Fields.reading (literal value regex).typedMembers read).optional "regex"
      RegexLiteral.ofJson = .ok regex := by
    rw [Fields.optional_reading]
    cases regex <;> rfl
  have hfinite : ∀ number, value = .number number → number.isFinite = true := by
    rintro number rfl
    exact h
  rw [ofFields, hregex]
  change LiteralValue.ofJson regex.isSome value.toJson >>= _ = _
  rw [LiteralValue.ofJson_toJson regex.isSome hfinite]
  rfl

theorem optionalNodes_arguments (read : Json → Except DecodeError α) (callee : Json)
    (arguments : Option (List Json)) :
    (Fields.reading (newExpression callee arguments).typedMembers read).optionalNodes "arguments" =
      arguments.mapM (·.mapM read) := by
  rw [Fields.optionalNodes_reading]
  cases arguments <;> rfl

section Reading

variable {read : Json → Except DecodeError α} {form : Form Json}

open Json.Members Fields in
-- Every member is found under its name, so all that is left is to read the parts.
theorem ofFields_typedMembers {kind : Kind} (hkind : form.kind? = some kind)
    (hform : form.isEncodable = true)
    (hparts : ∀ part ∈ form.children, part.notNull = some part) :
    ofFields kind (.reading form.typedMembers read) = form.mapM read := by
  have hok {ε β : Type} (value : β) : (.ok value : Except ε β) = pure value := rfl
  have hmismatch {β : Type} (value : β) :
      Except.mapError DecodeError.mismatch (pure value) = pure value := rfl
  cases form <;> cases hkind
  case literal value regex => exact ofFields_literal read hform
  case newExpression callee arguments =>
    have hcallee := hparts callee (by simp [children])
    simp only [ofFields, optionalNodes_arguments]
    simp [mapM, node_reading, typedMembers, members, present_cons, hcallee]
  all_goals
    simp only [children, List.forall_mem_cons, List.forall_mem_append, Option.mem_toList,
      List.not_mem_nil, false_implies, implies_true, and_true, notNull_orNull_iff] at hparts
    simp [mapM, ofFields, node_reading, optionalNode_reading, nodes_reading, string_reading,
      flag_reading, required_reading, optional_reading, hparts, typedMembers, members,
      present_cons, Json.notNull_array, Json.notNull_bool, Json.notNull_string, List.lookup_cons,
      VariableKind.ofJson_keyword, PropertyKind.ofJson_name, hok, hmismatch]

theorem lookup_type_typedMembers :
    (Fields.reading form.typedMembers read).members.lookup "type" = some (.string form.kindName) :=
  rfl

-- Reading the object of a construct is reading its parts one after the other in source order.
theorem ofObject_typedMembers (hform : form.isEncodable = true)
    (hparts : ∀ part ∈ form.children, part.notNull = some part) :
    ofObject (.reading form.typedMembers read) = form.mapM read := by
  cases hkind : form.kind? with
  | some kind =>
    have hname : Kind.ofName? form.kindName = some kind := by
      rw [kindName_of_kind? hkind, Kind.ofName?_name]
    rw [← ofFields_typedMembers hkind hform hparts, ofObject, lookup_type_typedMembers]
    simp only [hname]
  | none =>
    cases form <;> cases hkind
    rename_i name
    have hname : Kind.ofName? name = none := by
      rw [Kind.ofName?, List.find?_eq_none]
      intro kind hmem hsame
      simp [isEncodable] at hform
      exact hform kind hmem (by simpa using hsame)
    rw [ofObject, lookup_type_typedMembers]
    simp only [kindName, hname]
    rfl

end Reading

theorem isEncodable_map {β : Type} (f : α → β) (form : Form α) :
    (form.map f).isEncodable = form.isEncodable := by
  cases form
  case literal value regex => cases value <;> rfl
  all_goals rfl

end Form

namespace Node

-- The JSON value that describes a tree. The objects of the direct subtrees take their places by
-- their numbers.
def toJson (node : Node) : Json :=
  let parts := node.children.attach.map fun ⟨child, _⟩ => child.toJson
  (node.form.number.map fun (i, _) => parts.getD i .null).toJson
termination_by sizeOf node
decreasing_by exact sizeOf_lt_of_mem_children ‹_›

theorem toJson_eq (node : Node) : node.toJson = (node.form.map toJson).toJson := by
  rw [toJson]
  congr 1
  -- The number of a part is the index of its object.
  apply Form.eq_of_map_eq fun _ => ()
  · have hblind := congrArg (Form.map fun _ => ()) (Form.map_snd_number node.form)
    rw [Form.map_map] at hblind
    rw [Form.map_map, Form.map_map, hblind]
  · rw [Form.children_map, Form.children_map, Form.children_number]
    apply List.ext_getElem
    · simp
    · intro i hi hj
      have hlt : i < node.form.children.length := by simpa using hi
      simp [children, hlt]

theorem notNull_toJson (node : Node) : node.toJson.notNull = some node.toJson := by
  rw [toJson_eq]
  rfl

-- A node is read back if its direct subtrees are.
theorem ofJson_toJson_of_children {node : Node} (h : node.form.isEncodable = true)
    (hchildren : ∀ child ∈ node.children, ofJson child.toJson = .ok child) :
    ofJson node.toJson = .ok node := by
  have hparts : ∀ part ∈ (node.form.map toJson).children, part.notNull = some part := by
    rw [Form.children_map]
    intro part hpart
    obtain ⟨child, -, rfl⟩ := List.mem_map.mp hpart
    exact notNull_toJson child
  have hread : (node.form.mapM fun child => ofJson child.toJson) =
      node.form.mapM fun child => pure child := Form.mapM_congr hchildren
  rw [toJson_eq, Form.toJson, ofJson_object,
    Form.ofObject_typedMembers (by rwa [Form.isEncodable_map]) hparts, Form.mapM_map, hread,
    Form.mapM_pure, Form.map_id]
  cases node
  rfl

end Node

-- A tree is read back from its JSON value, if no construct in it is lost on the way.
theorem ofJson_toJson_of_encodable (tree : Node)
    (h : ∀ cursor ∈ (Cursor.root tree).preorder, cursor.node.form.isEncodable = true) :
    Node.ofJson tree.toJson = .ok tree := by
  have hread (cursor : Cursor)
      (h : ∀ other ∈ cursor.preorder, other.node.form.isEncodable = true) :
      Node.ofJson cursor.node.toJson = .ok cursor.node := by
    induction cursor using Cursor.induction with
    | step cursor ih =>
      rw [Cursor.forall_mem_preorder] at h
      apply Node.ofJson_toJson_of_children h.1
      intro node hnode
      rw [← Cursor.map_node_children] at hnode
      obtain ⟨child, hchild, rfl⟩ := List.mem_map.mp hnode
      exact ih child hchild (h.2 child hchild)
  exact hread (.root tree) h

-- `new A` and `new A()`, which differ in whether they have a list of arguments, a number and a
-- kind that is known by name only.
def assorted : Node :=
  .block [⟨.newExpression (.identifier "A") none⟩, .construct (.identifier "A") [], .number 1.5,
    .unmodeled "ObjectExpression"]

theorem ofJson_toJson_assorted :
    (∀ cursor ∈ (Cursor.root assorted).preorder, cursor.node.form.isEncodable = true) ∧
      Node.ofJson assorted.toJson = .ok assorted := by
  have hleaf {cursor : Cursor} (hchildren : cursor.children = [])
      (h : cursor.node.form.isEncodable = true) :
      ∀ other ∈ cursor.preorder, other.node.form.isEncodable = true := by
    rw [Cursor.forall_mem_preorder, hchildren]
    exact ⟨h, by simp⟩
  have hcallee (position : Position) :
      ∀ other ∈ Cursor.preorder ⟨position, .identifier "A"⟩, other.node.form.isEncodable = true :=
    hleaf rfl rfl
  have hencodable : ∀ cursor ∈ (Cursor.root assorted).preorder,
      cursor.node.form.isEncodable = true := by
    rw [Cursor.forall_mem_preorder]
    refine ⟨rfl, ?_⟩
    intro child hchild
    change child ∈ [(⟨[0], ⟨.newExpression (.identifier "A") none⟩⟩ : Cursor),
      ⟨[1], .construct (.identifier "A") []⟩, ⟨[2], .number 1.5⟩,
      ⟨[3], .unmodeled "ObjectExpression"⟩] at hchild
    simp only [List.mem_cons, List.not_mem_nil, or_false] at hchild
    rcases hchild with rfl | rfl | rfl | rfl
    · rw [Cursor.forall_mem_preorder]
      exact ⟨rfl, List.forall_mem_singleton.mpr (hcallee [0, 0])⟩
    · rw [Cursor.forall_mem_preorder]
      exact ⟨rfl, List.forall_mem_singleton.mpr (hcallee [0, 1])⟩
    · exact hleaf rfl (by decide +kernel)
    · exact hleaf rfl (by decide +kernel)
  exact ⟨hencodable, ofJson_toJson_of_encodable assorted hencodable⟩

end Estree
