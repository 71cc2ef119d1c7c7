import Estree.Json.Mismatch
import Estree.Json.Reader
import Estree.Node

namespace Estree

-- Why a JSON value is not a syntax tree.
inductive DecodeError where
  | notANode (found : Json.Head)
  | kindNotString (found : Json.Head)
  | missingField (name : String)
  | wrongField (name : String) (wanted : String) (found : Json.Head)
  | wrongLiteral (found : Json.Head)
  | mismatch (cause : Json.Mismatch)

namespace DecodeError

def message : DecodeError → String
  | .notANode found => "expected an ESTree node object, found " ++ found.noun
  | .kindNotString found => "node `type` must be a string, found " ++ found.noun
  | .missingField name => "missing field `" ++ name ++ "`"
  | .wrongField name wanted found =>
    "field `" ++ name ++ "` must be " ++ wanted ++ ", found " ++ found.noun
  | .wrongLiteral found =>
    "literal value must be null, a boolean, a number or a string, found " ++ found.noun
  | .mismatch cause => cause.message

end DecodeError

namespace Json

-- One of some named variants: its name, or an object whose only member has that name and is null.
def readVariant {α : Type} (variants : List (String × α)) (value : Json) : Except Mismatch α :=
  let named (name : String) : Except Mismatch α :=
    match variants.lookup name with
    | some variant => .ok variant
    | none => .error (.unknownVariant name (variants.map Prod.fst))
  match value with
  | .string name => named name
  | .object [(name, value)] => do
    let variant ← named name
    match value with
    | .null => return variant
    | value => throw (.invalidType value.head "unit")
  | .object _ => .error .notSingleKey
  | value => .error (.invalidType value.head "string or map")

end Json

namespace VariableKind

def ofJson : Json → Except Json.Mismatch VariableKind :=
  Json.readVariant (all.map fun kind => (kind.keyword, kind))

end VariableKind

namespace PropertyKind

def ofJson : Json → Except Json.Mismatch PropertyKind :=
  Json.readVariant (all.map fun kind => (kind.name, kind))

end PropertyKind

namespace RegexLiteral

-- The members read so far: the pattern and the flags. Others are passed over.
def readMembers (pattern flags : Option String) :
    Json.Members → Except Json.Mismatch (Option String × Option String)
  | [] => .ok (pattern, flags)
  | (name, value) :: members => do
    if name = "pattern" then
      let value ← value.readString
      readMembers (some value) flags members
    else if name = "flags" then
      let value ← value.readString
      readMembers pattern (some value) members
    else
      readMembers pattern flags members

-- A regular expression: an object, or an array of the pattern and the flags. The flags may be
-- left out.
def ofJson : Json → Except Json.Mismatch RegexLiteral
  | .object members => do
    let (pattern, flags) ← readMembers none none members
    match pattern with
    | some pattern => return ⟨pattern, flags.getD ""⟩
    | none => throw (.missingField "pattern")
  | .array [] => .error (.invalidLength 0 "struct RegexLiteral with 2 elements")
  | .array [pattern] => do return ⟨← pattern.readString, ""⟩
  | .array (pattern :: flags :: rest) => do
    let regex := ⟨← pattern.readString, ← flags.readString⟩
    if rest.isEmpty then
      return regex
    else
      throw (.invalidLength (rest.length + 2) "fewer elements in array")
  | value => .error (.invalidType value.head "struct RegexLiteral")

end RegexLiteral

namespace LiteralValue

-- The value of a literal. An array or object is taken for no value where the literal is a regular
-- expression.
def ofJson (isRegex : Bool) : Json → Except DecodeError LiteralValue
  | .null => .ok .null
  | .bool value => .ok (.boolean value)
  | .number value => .ok (.number value.toFloat)
  | .string value => .ok (.string value)
  | value => if isRegex then .ok .null else .error (.wrongLiteral value.head)

end LiteralValue

-- The members of a node object, and how those that hold nodes are read.
structure Fields (α : Type) where
  members : Json.Members
  read : (value : Json) → sizeOf value < sizeOf members → Except DecodeError α

namespace Fields

variable {α : Type}

-- A member that is there and not null.
def present? (fields : Fields α) (name : String) :
    Option { value : Json // sizeOf value < sizeOf fields.members } :=
  match h : fields.members.lookup name with
  | none => none
  | some .null => none
  | some value => some ⟨value, Json.Members.sizeOf_lt_of_lookup h⟩

theorem sizeOf_lt_of_mem_array {items : List Json} {item : Json} {n : Nat} (hi : item ∈ items)
    (h : sizeOf (Json.array items) < n) : sizeOf item < n := by
  have := List.sizeOf_lt_of_mem hi
  simp at h
  omega

def optionalNode (fields : Fields α) (name : String) : Except DecodeError (Option α) :=
  match fields.present? name with
  | none => .ok none
  | some ⟨value, h⟩ => (fields.read value h).map some

def node (fields : Fields α) (name : String) : Except DecodeError α := do
  match ← fields.optionalNode name with
  | some node => return node
  | none => throw (.missingField name)

def optionalNodes (fields : Fields α) (name : String) : Except DecodeError (Option (List α)) :=
  match fields.present? name with
  | none => .ok none
  | some ⟨.array items, h⟩ =>
    (items.attach.mapM fun (item : { item // item ∈ items }) =>
      fields.read item.val (sizeOf_lt_of_mem_array item.property h)).map some
  | some ⟨value, _⟩ => .error (.wrongField name "an array of nodes" value.head)

def nodes (fields : Fields α) (name : String) : Except DecodeError (List α) := do
  match ← fields.optionalNodes name with
  | some nodes => return nodes
  | none => throw (.missingField name)

-- A text. Unlike other members it may not be null.
def string (fields : Fields α) (name : String) : Except DecodeError String :=
  match fields.members.lookup name with
  | some (.string value) => .ok value
  | some value => .error (.wrongField name "a string" value.head)
  | none => .error (.missingField name)

def flag (fields : Fields α) (name : String) (default : Bool) : Except DecodeError Bool :=
  match fields.present? name with
  | none => .ok default
  | some ⟨.bool value, _⟩ => .ok value
  | some ⟨value, _⟩ => .error (.wrongField name "a boolean" value.head)

-- A member of another type.
def optional {β : Type} (fields : Fields α) (name : String)
    (ofJson : Json → Except Json.Mismatch β) : Except DecodeError (Option β) :=
  match fields.present? name with
  | none => .ok none
  | some ⟨value, _⟩ => ((ofJson value).map some).mapError .mismatch

def required {β : Type} (fields : Fields α) (name : String)
    (ofJson : Json → Except Json.Mismatch β) : Except DecodeError β := do
  match ← fields.optional name ofJson with
  | some value => return value
  | none => throw (.missingField name)

end Fields

namespace Form

variable {α : Type}

-- The construct of a kind that the members of a node object describe.
def ofFields (kind : Kind) (fields : Fields α) : Except DecodeError (Form α) := do
  match kind with
  | .program => return .program (← fields.nodes "body")
  | .emptyStatement => return .emptyStatement
  | .expressionStatement => return .expressionStatement (← fields.node "expression")
  | .blockStatement => return .blockStatement (← fields.nodes "body")
  | .returnStatement => return .returnStatement (← fields.optionalNode "argument")
  | .variableDeclaration =>
    return .variableDeclaration (← fields.required "kind" VariableKind.ofJson)
      (← fields.nodes "declarations")
  | .variableDeclarator =>
    return .variableDeclarator (← fields.node "id") (← fields.optionalNode "init")
  | .withStatement => return .withStatement (← fields.node "object") (← fields.node "body")
  | .ifStatement =>
    return .ifStatement (← fields.node "test") (← fields.node "consequent")
      (← fields.optionalNode "alternate")
  | .forStatement =>
    return .forStatement (← fields.optionalNode "init") (← fields.optionalNode "test")
      (← fields.optionalNode "update") (← fields.node "body")
  | .forInStatement =>
    return .forInStatement (← fields.node "left") (← fields.node "right") (← fields.node "body")
      (← fields.flag "each" false)
  | .whileStatement => return .whileStatement (← fields.node "test") (← fields.node "body")
  | .doWhileStatement => return .doWhileStatement (← fields.node "body") (← fields.node "test")
  | .breakStatement => return .breakStatement (← fields.optionalNode "label")
  | .continueStatement => return .continueStatement (← fields.optionalNode "label")
  | .labeledStatement => return .labeledStatement (← fields.node "label") (← fields.node "body")
  | .tryStatement =>
    return .tryStatement (← fields.node "block") (← fields.optionalNode "handler")
      (← fields.optionalNode "finalizer")
  | .catchClause =>
    return .catchClause (← fields.optionalNode "param") (← fields.optionalNode "guard")
      (← fields.node "body")
  | .throwStatement => return .throwStatement (← fields.node "argument")
  | .switchStatement =>
    return .switchStatement (← fields.node "discriminant") (← fields.nodes "cases")
  | .switchCase => return .switchCase (← fields.optionalNode "test") (← fields.nodes "consequent")
  | .debuggerStatement => return .debuggerStatement
  | .functionDeclaration =>
    return .functionDeclaration (← fields.optionalNode "id") (← fields.nodes "params")
      (← fields.node "body") (← fields.flag "generator" false) (← fields.flag "async" false)
  | .functionExpression =>
    return .functionExpression (← fields.optionalNode "id") (← fields.nodes "params")
      (← fields.node "body") (← fields.flag "generator" false) (← fields.flag "async" false)
  | .arrowFunctionExpression =>
    return .arrowFunctionExpression (← fields.nodes "params") (← fields.node "body")
      (← fields.flag "async" false)
  | .yieldExpression =>
    return .yieldExpression (← fields.optionalNode "argument") (← fields.flag "delegate" false)
  | .awaitExpression =>
    return .awaitExpression (← fields.optionalNode "argument") (← fields.flag "all" false)
  | .identifier => return .identifier (← fields.string "name")
  | .literal =>
    let regex ← fields.optional "regex" RegexLiteral.ofJson
    let value := (fields.members.lookup "value").getD .null
    return .literal (← LiteralValue.ofJson regex.isSome value) regex
  | .thisExpression => return .thisExpression
  | .binaryExpression =>
    return .binaryExpression (← fields.string "operator") (← fields.node "left")
      (← fields.node "right")
  | .logicalExpression =>
    return .logicalExpression (← fields.string "operator") (← fields.node "left")
      (← fields.node "right")
  | .assignmentExpression =>
    return .assignmentExpression (← fields.string "operator") (← fields.node "left")
      (← fields.node "right")
  | .memberExpression =>
    return .memberExpression (← fields.node "object") (← fields.node "property")
      (← fields.flag "computed" false)
  | .callExpression => return .callExpression (← fields.node "callee") (← fields.nodes "arguments")
  | .newExpression =>
    return .newExpression (← fields.node "callee") (← fields.optionalNodes "arguments")
  | .sequenceExpression => return .sequenceExpression (← fields.nodes "expressions")
  | .unaryExpression =>
    return .unaryExpression (← fields.string "operator") (← fields.node "argument")
      (← fields.flag "prefix" true)
  | .updateExpression =>
    return .updateExpression (← fields.string "operator") (← fields.node "argument")
      (← fields.flag "prefix" false)
  | .conditionalExpression =>
    return .conditionalExpression (← fields.node "test") (← fields.node "consequent")
      (← fields.node "alternate")
  | .spreadElement => return .spreadElement (← fields.node "argument")
  | .spreadElementPattern => return .spreadElementPattern (← fields.node "argument")
  | .spreadProperty => return .spreadProperty (← fields.node "argument")
  | .spreadPropertyPattern => return .spreadPropertyPattern (← fields.node "argument")
  | .property =>
    return .property (← fields.node "key") (← fields.node "value")
      ((← fields.optional "kind" PropertyKind.ofJson).getD default)
      (← fields.flag "method" false)
  | .propertyPattern =>
    return .propertyPattern (← fields.node "key") (← fields.node "pattern")
  | .path => return .path (← fields.node "body")
  | .moduleDeclaration =>
    return .moduleDeclaration (← fields.node "id") (← fields.optionalNode "source")
      (← fields.optionalNode "body")
  | .moduleSpecifier => return .moduleSpecifier (← fields.string "value")
  | .importSpecifier =>
    return .importSpecifier (← fields.node "id") (← fields.optionalNode "name")
  | .exportSpecifier =>
    return .exportSpecifier (← fields.node "id") (← fields.optionalNode "name")
  | .exportBatchSpecifier => return .exportBatchSpecifier

-- The construct that a node object describes. A kind without a form of its own is kept by name,
-- and then nothing else of the object is looked at.
def ofObject (fields : Fields α) : Except DecodeError (Form α) :=
  match fields.members.lookup "type" with
  | some (.string name) =>
    match Kind.ofName? name with
    | some kind => ofFields kind fields
    | none => .ok (.unmodeled name)
  | some value => .error (.kindNotString value.head)
  | none => .error (.missingField "type")

end Form

-- Why a text is not that of a syntax tree.
inductive ReadError where
  | fault (cause : Json.Fault)
  | decode (cause : DecodeError)

namespace ReadError

def message : ReadError → String
  | .fault cause => cause.message
  | .decode cause => cause.message

end ReadError

namespace Node

-- The syntax tree that a JSON value describes.
def ofJson (value : Json) : Except DecodeError Node :=
  match value with
  | .object members =>
    (Form.ofObject ⟨members, fun value _ => ofJson value⟩).map Node.mk
  | value => .error (.notANode value.head)
termination_by sizeOf value

-- The syntax tree that a JSON text describes. Arrays and objects may be nested without limit, and
-- the text is read to its end first.
def ofText (text : String) : Except ReadError Node := do
  let value ← (Json.parse text).mapError .fault
  (ofJson value).mapError .decode

-- As many arrays and objects are one too many to be open at once.
def nestingLimit : Nat := 128

-- The syntax tree that a JSON text of limited nesting describes. What follows the value is looked
-- at last.
def ofBoundedText (text : String) : Except ReadError Node := do
  let (value, rest) ← (Json.readValue (some nestingLimit) (Json.Token.ofText text)).mapError .fault
  let node ← (ofJson value).mapError .decode
  (Json.expectEnd rest).mapError .fault
  return node

end Node

end Estree
