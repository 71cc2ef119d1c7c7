import Estree.Node

namespace Estree.Node

def identifier (name : String) : Node :=
  ⟨.identifier name⟩

def literal (value : LiteralValue) : Node :=
  ⟨.literal value none⟩

def null : Node :=
  literal .null

def boolean (value : Bool) : Node :=
  literal (.boolean value)

def number (value : Float) : Node :=
  literal (.number value)

def string (value : String) : Node :=
  literal (.string value)

def this : Node :=
  ⟨.thisExpression⟩

def binary (left : Node) (operator : String) (right : Node) : Node :=
  ⟨.binaryExpression operator left right⟩

def logical (left : Node) (operator : String) (right : Node) : Node :=
  ⟨.logicalExpression operator left right⟩

-- A plain assignment.
def assign (target value : Node) : Node :=
  ⟨.assignmentExpression "=" target value⟩

-- A member that is accessed by name.
def member (object : Node) (name : String) : Node :=
  ⟨.memberExpression object (identifier name) false⟩

-- A member that is accessed by a computed key.
def computedMember (object key : Node) : Node :=
  ⟨.memberExpression object key true⟩

def call (callee : Node) (arguments : List Node) : Node :=
  ⟨.callExpression callee arguments⟩

-- A construction with an argument list, be it empty.
def construct (callee : Node) (arguments : List Node) : Node :=
  ⟨.newExpression callee (some arguments)⟩

def statement (expression : Node) : Node :=
  ⟨.expressionStatement expression⟩

def block (body : List Node) : Node :=
  ⟨.blockStatement body⟩

def returning (argument : Option Node) : Node :=
  ⟨.returnStatement argument⟩

def declarator (name : String) (init : Option Node) : Node :=
  ⟨.variableDeclarator (identifier name) init⟩

def declaration (kind : VariableKind) (declarations : List Node) : Node :=
  ⟨.variableDeclaration kind declarations⟩

def program (body : List Node) : Node :=
  ⟨.program body⟩

-- A construct without a form of its own.
def unmodeled (kind : String) : Node :=
  ⟨.unmodeled kind⟩

end Estree.Node
