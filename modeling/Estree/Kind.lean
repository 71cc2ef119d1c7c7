namespace Estree

-- The kinds of syntax that have a form of their own. Every other kind is carried by name only.
inductive Kind where
  | program
  | emptyStatement
  | expressionStatement
  | blockStatement
  | returnStatement
  | variableDeclaration
  | variableDeclarator
  | withStatement
  | ifStatement
  | forStatement
  | forInStatement
  | whileStatement
  | doWhileStatement
  | breakStatement
  | continueStatement
  | labeledStatement
  | tryStatement
  | catchClause
  | throwStatement
  | switchStatement
  | switchCase
  | debuggerStatement
  | functionDeclaration
  | functionExpression
  | arrowFunctionExpression
  | yieldExpression
  | awaitExpression
  | identifier
  | literal
  | thisExpression
  | binaryExpression
  | logicalExpression
  | assignmentExpression
  | memberExpression
  | callExpression
  | newExpression
  | sequenceExpression
  | unaryExpression
  | updateExpression
  | conditionalExpression
  | spreadElement
  | spreadElementPattern
  | spreadProperty
  | spreadPropertyPattern
  | property
  | propertyPattern
  | path
  | moduleDeclaration
  | moduleSpecifier
  | importSpecifier
  | exportSpecifier
  | exportBatchSpecifier
  deriving DecidableEq, Repr

namespace Kind

-- The name of a kind, as it stands in the `type` member of a node object.
def name : Kind → String
  | .program => "Program"
  | .emptyStatement => "EmptyStatement"
  | .expressionStatement => "ExpressionStatement"
  | .blockStatement => "BlockStatement"
  | .returnStatement => "ReturnStatement"
  | .variableDeclaration => "VariableDeclaration"
  | .variableDeclarator => "VariableDeclarator"
  | .withStatement => "WithStatement"
  | .ifStatement => "IfStatement"
  | .forStatement => "ForStatement"
  | .forInStatement => "ForInStatement"
  | .whileStatement => "WhileStatement"
  | .doWhileStatement => "DoWhileStatement"
  | .breakStatement => "BreakStatement"
  | .continueStatement => "ContinueStatement"
  | .labeledStatement => "LabeledStatement"
  | .tryStatement => "TryStatement"
  | .catchClause => "CatchClause"
  | .throwStatement => "ThrowStatement"
  | .switchStatement => "SwitchStatement"
  | .switchCase => "SwitchCase"
  | .debuggerStatement => "DebuggerStatement"
  | .functionDeclaration => "FunctionDeclaration"
  | .functionExpression => "FunctionExpression"
  | .arrowFunctionExpression => "ArrowFunctionExpression"
  | .yieldExpression => "YieldExpression"
  | .awaitExpression => "AwaitExpression"
  | .identifier => "Identifier"
  | .literal => "Literal"
  | .thisExpression => "ThisExpression"
  | .binaryExpression => "BinaryExpression"
  | .logicalExpression => "LogicalExpression"
  | .assignmentExpression => "AssignmentExpression"
  | .memberExpression => "MemberExpression"
  | .callExpression => "CallExpression"
  | .newExpression => "NewExpression"
  | .sequenceExpression => "SequenceExpression"
  | .unaryExpression => "UnaryExpression"
  | .updateExpression => "UpdateExpression"
  | .conditionalExpression => "ConditionalExpression"
  | .spreadElement => "SpreadElement"
  | .spreadElementPattern => "SpreadElementPattern"
  | .spreadProperty => "SpreadProperty"
  | .spreadPropertyPattern => "SpreadPropertyPattern"
  | .property => "Property"
  | .propertyPattern => "PropertyPattern"
  | .path => "Path"
  | .moduleDeclaration => "ModuleDeclaration"
  | .moduleSpecifier => "ModuleSpecifier"
  | .importSpecifier => "ImportSpecifier"
  | .exportSpecifier => "ExportSpecifier"
  | .exportBatchSpecifier => "ExportBatchSpecifier"

-- All kinds: statements, functions, expressions, modules.
def all : List Kind :=
  [.program, .emptyStatement, .expressionStatement, .blockStatement, .returnStatement,
   .variableDeclaration, .variableDeclarator, .withStatement, .ifStatement, .forStatement,
   .forInStatement, .whileStatement, .doWhileStatement, .breakStatement, .continueStatement,
   .labeledStatement, .tryStatement, .catchClause, .throwStatement, .switchStatement,
   .switchCase, .debuggerStatement, .functionDeclaration, .functionExpression,
   .arrowFunctionExpression, .yieldExpression, .awaitExpression, .identifier, .literal,
   .thisExpression, .binaryExpression, .logicalExpression, .assignmentExpression,
   .memberExpression, .callExpression, .newExpression, .sequenceExpression, .unaryExpression,
   .updateExpression, .conditionalExpression, .spreadElement, .spreadElementPattern,
   .spreadProperty, .spreadPropertyPattern, .property, .propertyPattern, .path,
   .moduleDeclaration, .moduleSpecifier, .importSpecifier, .exportSpecifier,
   .exportBatchSpecifier]

-- The kind that goes by a name.
def ofName? (name : String) : Option Kind :=
  all.find? fun kind => kind.name == name

theorem mem_all (kind : Kind) : kind ∈ all := by
  cases kind <;> simp [all]

@[simp] theorem ofName?_name (kind : Kind) : ofName? kind.name = some kind :=
  have found : ∀ kind ∈ all, ofName? kind.name = some kind := by decide +kernel
  found kind kind.mem_all

theorem name_of_ofName? {name : String} {kind : Kind} (h : ofName? name = some kind) :
    kind.name = name := by
  simpa using List.find?_some h

-- A name belongs to one kind only.
theorem name_injective {a b : Kind} (h : a.name = b.name) : a = b := by
  simpa using congrArg ofName? h

end Kind

end Estree
