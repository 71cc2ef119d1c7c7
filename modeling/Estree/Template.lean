import Estree.Literal
import Estree.Options

namespace Estree

-- How the texts of some parts are put together.
inductive Arrangement where
  -- One after the other
  | separatedBy (separator : String)
  -- On lines of their own, one level deeper
  | nested
  -- The declarators of a variable declaration
  | declarators
  -- The body of a loop whose condition comes last
  | loopBody

namespace Arrangement

-- Declarators stand on one line, unless one of them spans several.
def declaratorSeparator (options : PrintOptions) (texts : List String) : String :=
  if texts.any (·.contains '\n') then ",\n" ++ options.continuationIndent else ", "

-- The condition follows on the line of a closing brace, or else on a new line.
def beforeCondition (body : String) : String :=
  if body.back? = some '\x7d' then " " else "\n"

def write (options : PrintOptions) (arrangement : Arrangement) (texts : List String) : String :=
  match arrangement with
  | separatedBy separator => separator.intercalate texts
  | nested => "\n" ++ Text.indentWith options.indentUnit ("\n".intercalate texts)
  | declarators => (declaratorSeparator options texts).intercalate texts
  | loopBody => String.join texts ++ beforeCondition (String.join texts)

end Arrangement

-- A piece of a template: fixed text, or a place for the texts of some parts.
inductive Piece (α : Type) where
  | text (text : String)
  | parts (arrangement : Arrangement) (parts : List α)

namespace Piece

variable {α : Type}

-- A place for one part.
def part (part : α) : Piece α :=
  .parts (.separatedBy "") [part]

def list (separator : String) (parts : List α) : Piece α :=
  .parts (.separatedBy separator) parts

end Piece

-- How a construct is written: its pieces from left to right.
abbrev Template (α : Type) := List (Piece α)

namespace Template

variable {α : Type}

-- The parts that the template has places for, from left to right.
def parts (template : Template α) : List α :=
  template.flatMap fun
    | .text _ => []
    | .parts _ parts => parts

@[simp] theorem parts_nil : parts ([] : Template α) = [] := rfl

@[simp] theorem parts_cons_text (text : String) (template : Template α) :
    parts (.text text :: template) = parts template := rfl

@[simp] theorem parts_cons_parts (arrangement : Arrangement) (children : List α)
    (template : Template α) :
    parts (.parts arrangement children :: template) = children ++ parts template := rfl

@[simp] theorem parts_cons_part (child : α) (template : Template α) :
    parts (Piece.part child :: template) = child :: parts template := rfl

@[simp] theorem parts_cons_list (separator : String) (children : List α) (template : Template α) :
    parts (Piece.list separator children :: template) = children ++ parts template := rfl

@[simp] theorem parts_append (first second : Template α) :
    parts (first ++ second) = parts first ++ parts second := by
  simp [parts]

-- The text of a template, given the texts of its parts from left to right.
def assemble (options : PrintOptions) : Template α → List String → String
  | [], _ => ""
  | .text text :: template, texts => text ++ assemble options template texts
  | .parts arrangement parts :: template, texts =>
    arrangement.write options (texts.take parts.length) ++
      assemble options template (texts.drop parts.length)

end Template

-- A construct that is not printed.
structure Unsupported where
  kind : String
  deriving DecidableEq

namespace Unsupported

def message (error : Unsupported) : String :=
  "unsupported node kind: " ++ error.kind

end Unsupported

namespace Form

variable {α : Type}

open Piece (part list)

-- A part with some text before it, where there is one.
def optional (before : String) (child : Option α) : Template α :=
  match child with
  | some child => [.text before, part child]
  | none => []

-- A word that is there or not.
def word (present : Bool) (text : String) : String :=
  if present then text else ""

-- Statements in braces, on lines of their own.
def braces (body : List α) : Template α :=
  match body with
  | [] => [.text "\x7b\x7d"]
  | body => [.text "\x7b", .parts .nested body, .text "\n\x7d"]

-- The statements of a case. A single one stands on the line of the label.
def caseBody (statements : List α) : Template α :=
  match statements with
  | [] => []
  | [only] => [.text " ", part only]
  | statements => [.parts .nested statements]

-- The parameters of an arrow function. A single one needs no parentheses.
def arrowParams (params : List α) : Template α :=
  match params with
  | [param] => [part param]
  | params => [.text "(", list ", " params, .text ")"]

-- Operators that are words are separated from their operand.
def afterOperator (operator : String) : String :=
  if operator.back?.any Char.isLower then " " else ""

def function (id : Option α) (params : List α) (body : α) (generator async : Bool) : Template α :=
  [.text (word async "async " ++ "function" ++ word generator "*")] ++ optional " " id ++
    [.text "(", list ", " params, .text ") ", part body]

-- A declaration in the head of a loop is ended by the loop.
def terminator (inLoopHead : Bool) : String :=
  if inLoopHead then "" else ";"

-- How a construct is written, if it is. `inLoopHead` says that it stands in the head of a loop.
def template (inLoopHead : Bool) (form : Form α) : Except Unsupported (Template α) :=
  match form with
  | .program body => .ok [list "\n" body]
  | .emptyStatement => .ok []
  | .expressionStatement expression => .ok [part expression, .text ";"]
  | .blockStatement body => .ok (braces body)
  | .returnStatement argument => .ok ([.text "return"] ++ optional " " argument ++ [.text ";"])
  | .variableDeclaration kind declarations =>
    .ok [.text (kind.keyword ++ " "), .parts .declarators declarations,
      .text (terminator inLoopHead)]
  | .variableDeclarator id init => .ok ([part id] ++ optional " = " init)
  | .withStatement object body => .ok [.text "with (", part object, .text ") ", part body]
  | .ifStatement test consequent none => .ok [.text "if (", part test, .text ") ", part consequent]
  | .ifStatement _ _ (some _) => .error ⟨form.kindName⟩
  | .forStatement init test update body =>
    .ok ([.text "for ("] ++ optional "" init ++ [.text ";"] ++ optional " " test ++ [.text ";"] ++
      optional " " update ++ [.text ") ", part body])
  | .forInStatement left right body each =>
    .ok [.text ("for " ++ word each "each " ++ "("), part left, .text " in ", part right,
      .text ") ", part body]
  | .whileStatement test body => .ok [.text "while (", part test, .text ") ", part body]
  | .doWhileStatement body test =>
    .ok [.text "do ", .parts .loopBody [body], .text "while (", part test, .text ");"]
  | .breakStatement label => .ok ([.text "break"] ++ optional " " label ++ [.text ";"])
  | .continueStatement label => .ok ([.text "continue"] ++ optional " " label ++ [.text ";"])
  | .labeledStatement label body => .ok [part label, .text ":\n", part body]
  | .tryStatement block handler finalizer =>
    .ok ([.text "try ", part block] ++ optional " " handler ++ optional " finally " finalizer)
  | .catchClause none _ body => .ok [.text "catch ", part body]
  | .catchClause (some param) guard body =>
    .ok ([.text "catch (", part param] ++ optional " if " guard ++ [.text ") ", part body])
  | .throwStatement argument => .ok [.text "throw ", part argument, .text ";"]
  | .switchStatement discriminant cases =>
    .ok ([.text "switch (", part discriminant, .text ") "] ++ braces cases)
  | .switchCase test consequent =>
    .ok ((match test with
      | some test => [.text "case ", part test, .text ":"]
      | none => [.text "default:"]) ++ caseBody consequent)
  | .debuggerStatement => .ok [.text "debugger;"]
  | .functionDeclaration id params body generator async =>
    .ok (function id params body generator async)
  | .functionExpression id params body generator async =>
    .ok (function id params body generator async)
  | .arrowFunctionExpression params body async =>
    .ok ([.text (word async "async ")] ++ arrowParams params ++ [.text " => ", part body])
  | .yieldExpression argument delegate =>
    .ok ([.text ("yield" ++ word delegate "*")] ++ optional " " argument)
  | .awaitExpression argument all =>
    .ok ([.text ("await" ++ word all "*")] ++ optional "" argument)
  | .identifier name => .ok [.text name]
  | .literal _ (some regex) => .ok [.text regex.text]
  | .literal value none => .ok [.text value.text]
  | .thisExpression => .ok [.text "this"]
  | .binaryExpression operator left right
  | .logicalExpression operator left right
  | .assignmentExpression operator left right =>
    .ok [part left, .text (" " ++ operator ++ " "), part right]
  | .memberExpression object key true => .ok [part object, .text "[", part key, .text "]"]
  | .memberExpression object key false => .ok [part object, .text ".", part key]
  | .callExpression callee arguments =>
    .ok [part callee, .text "(", list ", " arguments, .text ")"]
  | .newExpression callee none => .ok [.text "new ", part callee]
  | .newExpression callee (some arguments) =>
    .ok [.text "new ", part callee, .text "(", list ", " arguments, .text ")"]
  | .sequenceExpression expressions => .ok [list ", " expressions]
  | .unaryExpression operator argument _ =>
    .ok [.text (operator ++ afterOperator operator), part argument]
  | .updateExpression operator argument true => .ok [.text operator, part argument]
  | .updateExpression operator argument false => .ok [part argument, .text operator]
  | .conditionalExpression test consequent alternate =>
    .ok [.text "(", part test, .text " ? ", part consequent, .text " : ", part alternate,
      .text ")"]
  | .spreadElement argument
  | .spreadElementPattern argument
  | .spreadProperty argument
  | .spreadPropertyPattern argument => .ok [.text "...", part argument]
  | .property key value .init false => .ok [part key, .text ": ", part value]
  | .property .. => .error ⟨form.kindName⟩
  | .propertyPattern key pattern => .ok [part key, .text ": ", part pattern]
  | .path body => .ok [.text ".", part body]
  | .moduleDeclaration id (some source) _ =>
    .ok [.text "module ", part id, .text " from ", part source]
  | .moduleDeclaration id none body => .ok ([.text "module ", part id] ++ optional "" body)
  | .moduleSpecifier value => .ok [.text (Text.quote value)]
  | .importSpecifier id name
  | .exportSpecifier id name => .ok ([part id] ++ optional " as " name)
  | .exportBatchSpecifier => .ok [.text "*"]
  | .unmodeled kind => .error ⟨kind⟩

-- The parts that are printed. A catch clause that binds nothing prints no guard, and a module that
-- names its source prints no body; all other constructs print all their parts.
def printed : Form α → List α
  | .catchClause none _ body => [body]
  | .moduleDeclaration id (some source) _ => [id, source]
  | form => form.children

theorem mem_children_of_mem_printed {form : Form α} {child : α} (h : child ∈ form.printed) :
    child ∈ form.children := by
  unfold printed at h
  split at h <;> simp_all [children]
  cases h <;> simp [*]

@[simp] theorem parts_optional (before : String) (child : Option α) :
    (optional before child).parts = child.toList := by
  cases child <;> rfl

@[simp] theorem parts_braces (body : List α) : (braces body).parts = body := by
  unfold braces
  split <;> simp

@[simp] theorem parts_caseBody (statements : List α) : (caseBody statements).parts = statements := by
  unfold caseBody
  split <;> simp

@[simp] theorem parts_arrowParams (params : List α) : (arrowParams params).parts = params := by
  unfold arrowParams
  split <;> simp

@[simp] theorem parts_function (id : Option α) (params : List α) (body : α)
    (generator async : Bool) :
    (function id params body generator async).parts = id.toList ++ params ++ [body] := by
  simp [function]

-- A template has places for the printed parts, in source order.
theorem parts_template {inLoopHead : Bool} {form : Form α} {template : Template α}
    (h : form.template inLoopHead = .ok template) : template.parts = form.printed := by
  unfold Form.template at h
  split at h <;> cases h <;> simp [printed, children]
  split <;> simp

end Form

end Estree
