import Estree.Kind

namespace Estree

-- The keyword that opens a variable declaration.
inductive VariableKind where
  | var
  | let
  | const
  deriving DecidableEq, Repr

namespace VariableKind

def keyword : VariableKind → String
  | .var => "var"
  | .let => "let"
  | .const => "const"

def all : List VariableKind := [.var, .let, .const]

instance : Inhabited VariableKind := ⟨.var⟩

end VariableKind

-- What a property does: hold a value, or stand for a getter or a setter.
inductive PropertyKind where
  | init
  | get
  | set
  deriving DecidableEq, Repr

namespace PropertyKind

def name : PropertyKind → String
  | .init => "init"
  | .get => "get"
  | .set => "set"

def all : List PropertyKind := [.init, .get, .set]

instance : Inhabited PropertyKind := ⟨.init⟩

end PropertyKind

inductive LiteralValue where
  | null
  | boolean (value : Bool)
  | number (value : Float)
  | string (value : String)
  deriving BEq, Inhabited

structure RegexLiteral where
  pattern : String
  flags : String
  deriving DecidableEq

-- One level of syntax: a construct with its scalar attributes, whose parts are of type `α`.
-- A syntax tree has trees for parts; reading, numbering and printing work on one level at a time
-- and instantiate `α` as they need.
inductive Form (α : Type) where
  -- Program and statements
  | program (body : List α)
  | emptyStatement
  | expressionStatement (expression : α)
  | blockStatement (body : List α)
  | returnStatement (argument : Option α)
  | variableDeclaration (kind : VariableKind) (declarations : List α)
  | variableDeclarator (id : α) (init : Option α)
  | withStatement (object body : α)
  | ifStatement (test consequent : α) (alternate : Option α)
  | forStatement (init test update : Option α) (body : α)
  | forInStatement (left right body : α) (each : Bool)
  | whileStatement (test body : α)
  | doWhileStatement (body test : α)
  | breakStatement (label : Option α)
  | continueStatement (label : Option α)
  | labeledStatement (label body : α)
  | tryStatement (block : α) (handler finalizer : Option α)
  | catchClause (param guard : Option α) (body : α)
  | throwStatement (argument : α)
  | switchStatement (discriminant : α) (cases : List α)
  | switchCase (test : Option α) (consequent : List α)
  | debuggerStatement
  -- Functions
  | functionDeclaration (id : Option α) (params : List α) (body : α) (generator async : Bool)
  | functionExpression (id : Option α) (params : List α) (body : α) (generator async : Bool)
  | arrowFunctionExpression (params : List α) (body : α) (async : Bool)
  | yieldExpression (argument : Option α) (delegate : Bool)
  | awaitExpression (argument : Option α) (all : Bool)
  -- Expressions
  | identifier (name : String)
  | literal (value : LiteralValue) (regex : Option RegexLiteral)
  | thisExpression
  | binaryExpression (operator : String) (left right : α)
  | logicalExpression (operator : String) (left right : α)
  | assignmentExpression (operator : String) (left right : α)
  | memberExpression (object property : α) (computed : Bool)
  | callExpression (callee : α) (arguments : List α)
  | newExpression (callee : α) (arguments : Option (List α))
  | sequenceExpression (expressions : List α)
  | unaryExpression (operator : String) (argument : α) (leading : Bool)
  | updateExpression (operator : String) (argument : α) (leading : Bool)
  | conditionalExpression (test consequent alternate : α)
  | spreadElement (argument : α)
  | spreadElementPattern (argument : α)
  | spreadProperty (argument : α)
  | spreadPropertyPattern (argument : α)
  | property (key value : α) (kind : PropertyKind) (method : Bool)
  | propertyPattern (key pattern : α)
  | path (body : α)
  -- Modules
  | moduleDeclaration (id : α) (source body : Option α)
  | moduleSpecifier (value : String)
  | importSpecifier (id : α) (name : Option α)
  | exportSpecifier (id : α) (name : Option α)
  | exportBatchSpecifier
  -- Any other construct, known by the name of its kind only
  | unmodeled (kind : String)
  deriving BEq

namespace Form

variable {α β : Type}

-- The kind of a construct, if it has a form of its own.
def kind? : Form α → Option Kind
  | .program .. => some .program
  | .emptyStatement => some .emptyStatement
  | .expressionStatement .. => some .expressionStatement
  | .blockStatement .. => some .blockStatement
  | .returnStatement .. => some .returnStatement
  | .variableDeclaration .. => some .variableDeclaration
  | .variableDeclarator .. => some .variableDeclarator
  | .withStatement .. => some .withStatement
  | .ifStatement .. => some .ifStatement
  | .forStatement .. => some .forStatement
  | .forInStatement .. => some .forInStatement
  | .whileStatement .. => some .whileStatement
  | .doWhileStatement .. => some .doWhileStatement
  | .breakStatement .. => some .breakStatement
  | .continueStatement .. => some .continueStatement
  | .labeledStatement .. => some .labeledStatement
  | .tryStatement .. => some .tryStatement
  | .catchClause .. => some .catchClause
  | .throwStatement .. => some .throwStatement
  | .switchStatement .. => some .switchStatement
  | .switchCase .. => some .switchCase
  | .debuggerStatement => some .debuggerStatement
  | .functionDeclaration .. => some .functionDeclaration
  | .functionExpression .. => some .functionExpression
  | .arrowFunctionExpression .. => some .arrowFunctionExpression
  | .yieldExpression .. => some .yieldExpression
  | .awaitExpression .. => some .awaitExpression
  | .identifier .. => some .identifier
  | .literal .. => some .literal
  | .thisExpression => some .thisExpression
  | .binaryExpression .. => some .binaryExpression
  | .logicalExpression .. => some .logicalExpression
  | .assignmentExpression .. => some .assignmentExpression
  | .memberExpression .. => some .memberExpression
  | .callExpression .. => some .callExpression
  | .newExpression .. => some .newExpression
  | .sequenceExpression .. => some .sequenceExpression
  | .unaryExpression .. => some .unaryExpression
  | .updateExpression .. => some .updateExpression
  | .conditionalExpression .. => some .conditionalExpression
  | .spreadElement .. => some .spreadElement
  | .spreadElementPattern .. => some .spreadElementPattern
  | .spreadProperty .. => some .spreadProperty
  | .spreadPropertyPattern .. => some .spreadPropertyPattern
  | .property .. => some .property
  | .propertyPattern .. => some .propertyPattern
  | .path .. => some .path
  | .moduleDeclaration .. => some .moduleDeclaration
  | .moduleSpecifier .. => some .moduleSpecifier
  | .importSpecifier .. => some .importSpecifier
  | .exportSpecifier .. => some .exportSpecifier
  | .exportBatchSpecifier => some .exportBatchSpecifier
  | .unmodeled _ => none

-- The name of the kind of a construct.
def kindName : Form α → String
  | .unmodeled kind => kind
  | form => (form.kind?.map Kind.name).getD ""

-- The parts of a construct, in source order.
def children : Form α → List α
  | .program body => body
  | .emptyStatement => []
  | .expressionStatement expression => [expression]
  | .blockStatement body => body
  | .returnStatement argument => argument.toList
  | .variableDeclaration _ declarations => declarations
  | .variableDeclarator id init => id :: init.toList
  | .withStatement object body => [object, body]
  | .ifStatement test consequent alternate => test :: consequent :: alternate.toList
  | .forStatement init test update body => init.toList ++ test.toList ++ update.toList ++ [body]
  | .forInStatement left right body _ => [left, right, body]
  | .whileStatement test body => [test, body]
  | .doWhileStatement body test => [body, test]
  | .breakStatement label => label.toList
  | .continueStatement label => label.toList
  | .labeledStatement label body => [label, body]
  | .tryStatement block handler finalizer => block :: (handler.toList ++ finalizer.toList)
  | .catchClause param guard body => param.toList ++ guard.toList ++ [body]
  | .throwStatement argument => [argument]
  | .switchStatement discriminant cases => discriminant :: cases
  | .switchCase test consequent => test.toList ++ consequent
  | .debuggerStatement => []
  | .functionDeclaration id params body _ _ => id.toList ++ params ++ [body]
  | .functionExpression id params body _ _ => id.toList ++ params ++ [body]
  | .arrowFunctionExpression params body _ => params ++ [body]
  | .yieldExpression argument _ => argument.toList
  | .awaitExpression argument _ => argument.toList
  | .identifier _ => []
  | .literal _ _ => []
  | .thisExpression => []
  | .binaryExpression _ left right => [left, right]
  | .logicalExpression _ left right => [left, right]
  | .assignmentExpression _ left right => [left, right]
  | .memberExpression object member _ => [object, member]
  | .callExpression callee arguments => callee :: arguments
  | .newExpression callee arguments => callee :: arguments.getD []
  | .sequenceExpression expressions => expressions
  | .unaryExpression _ argument _ => [argument]
  | .updateExpression _ argument _ => [argument]
  | .conditionalExpression test consequent alternate => [test, consequent, alternate]
  | .spreadElement argument => [argument]
  | .spreadElementPattern argument => [argument]
  | .spreadProperty argument => [argument]
  | .spreadPropertyPattern argument => [argument]
  | .property key value _ _ => [key, value]
  | .propertyPattern key pattern => [key, pattern]
  | .path body => [body]
  | .moduleDeclaration id source body => id :: (source.toList ++ body.toList)
  | .moduleSpecifier _ => []
  | .importSpecifier id name => id :: name.toList
  | .exportSpecifier id name => id :: name.toList
  | .exportBatchSpecifier => []
  | .unmodeled _ => []

-- The construct with every part replaced, the parts being visited in source order.
def mapM {m : Type → Type} [Monad m] (visit : α → m β) : Form α → m (Form β)
  | .program body => return .program (← body.mapM visit)
  | .emptyStatement => return .emptyStatement
  | .expressionStatement expression => return .expressionStatement (← visit expression)
  | .blockStatement body => return .blockStatement (← body.mapM visit)
  | .returnStatement argument => return .returnStatement (← argument.mapM visit)
  | .variableDeclaration kind declarations =>
      return .variableDeclaration kind (← declarations.mapM visit)
  | .variableDeclarator id init => return .variableDeclarator (← visit id) (← init.mapM visit)
  | .withStatement object body => return .withStatement (← visit object) (← visit body)
  | .ifStatement test consequent alternate =>
      return .ifStatement (← visit test) (← visit consequent) (← alternate.mapM visit)
  | .forStatement init test update body =>
      return .forStatement (← init.mapM visit) (← test.mapM visit) (← update.mapM visit)
        (← visit body)
  | .forInStatement left right body each =>
      return .forInStatement (← visit left) (← visit right) (← visit body) each
  | .whileStatement test body => return .whileStatement (← visit test) (← visit body)
  | .doWhileStatement body test => return .doWhileStatement (← visit body) (← visit test)
  | .breakStatement label => return .breakStatement (← label.mapM visit)
  | .continueStatement label => return .continueStatement (← label.mapM visit)
  | .labeledStatement label body => return .labeledStatement (← visit label) (← visit body)
  | .tryStatement block handler finalizer =>
      return .tryStatement (← visit block) (← handler.mapM visit) (← finalizer.mapM visit)
  | .catchClause param guard body =>
      return .catchClause (← param.mapM visit) (← guard.mapM visit) (← visit body)
  | .throwStatement argument => return .throwStatement (← visit argument)
  | .switchStatement discriminant cases =>
      return .switchStatement (← visit discriminant) (← cases.mapM visit)
  | .switchCase test consequent =>
      return .switchCase (← test.mapM visit) (← consequent.mapM visit)
  | .debuggerStatement => return .debuggerStatement
  | .functionDeclaration id params body generator async =>
      return .functionDeclaration (← id.mapM visit) (← params.mapM visit)
        (← visit body) generator async
  | .functionExpression id params body generator async =>
      return .functionExpression (← id.mapM visit) (← params.mapM visit)
        (← visit body) generator async
  | .arrowFunctionExpression params body async =>
      return .arrowFunctionExpression (← params.mapM visit) (← visit body) async
  | .yieldExpression argument delegate => return .yieldExpression (← argument.mapM visit) delegate
  | .awaitExpression argument all => return .awaitExpression (← argument.mapM visit) all
  | .identifier name => return .identifier name
  | .literal value regex => return .literal value regex
  | .thisExpression => return .thisExpression
  | .binaryExpression operator left right =>
      return .binaryExpression operator (← visit left) (← visit right)
  | .logicalExpression operator left right =>
      return .logicalExpression operator (← visit left) (← visit right)
  | .assignmentExpression operator left right =>
      return .assignmentExpression operator (← visit left) (← visit right)
  | .memberExpression object member computed =>
      return .memberExpression (← visit object) (← visit member) computed
  | .callExpression callee arguments =>
      return .callExpression (← visit callee) (← arguments.mapM visit)
  | .newExpression callee arguments =>
      return .newExpression (← visit callee) (← arguments.mapM (·.mapM visit))
  | .sequenceExpression expressions => return .sequenceExpression (← expressions.mapM visit)
  | .unaryExpression operator argument leading =>
      return .unaryExpression operator (← visit argument) leading
  | .updateExpression operator argument leading =>
      return .updateExpression operator (← visit argument) leading
  | .conditionalExpression test consequent alternate =>
      return .conditionalExpression (← visit test) (← visit consequent) (← visit alternate)
  | .spreadElement argument => return .spreadElement (← visit argument)
  | .spreadElementPattern argument => return .spreadElementPattern (← visit argument)
  | .spreadProperty argument => return .spreadProperty (← visit argument)
  | .spreadPropertyPattern argument => return .spreadPropertyPattern (← visit argument)
  | .property key value kind method => return .property (← visit key) (← visit value) kind method
  | .propertyPattern key pattern => return .propertyPattern (← visit key) (← visit pattern)
  | .path body => return .path (← visit body)
  | .moduleDeclaration id source body =>
      return .moduleDeclaration (← visit id) (← source.mapM visit) (← body.mapM visit)
  | .moduleSpecifier value => return .moduleSpecifier value
  | .importSpecifier id name => return .importSpecifier (← visit id) (← name.mapM visit)
  | .exportSpecifier id name => return .exportSpecifier (← visit id) (← name.mapM visit)
  | .exportBatchSpecifier => return .exportBatchSpecifier
  | .unmodeled kind => return .unmodeled kind

-- Replacing the parts of a construct visits exactly its parts, in source order.
theorem children_mapM {m : Type → Type} [Monad m] [LawfulMonad m] (visit : α → m β)
    (form : Form α) : children <$> form.mapM visit = form.children.mapM visit := by
  have optional (part : Option α) :
      part.toList.mapM visit = Option.toList <$> part.mapM visit := by cases part <;> simp
  cases form
  case newExpression callee arguments => cases arguments <;> simp [mapM, children]
  all_goals simp [mapM, children, optional]

-- The construct with every part replaced by its image.
def map (f : α → β) (form : Form α) : Form β :=
  Id.run (form.mapM fun part => pure (f part))

@[simp] theorem children_map (f : α → β) (form : Form α) :
    (form.map f).children = form.children.map f := by
  have := congrArg Id.run (children_mapM (fun part => (pure (f part) : Id β)) form)
  simpa [map] using this

-- The construct without its parts: what kind it is, its attributes, and which parts it has.
def outline (form : Form α) : Form Unit :=
  form.map fun _ => ()

-- Gives a part the next free number.
def takeNumber (part : α) : StateM Nat (Nat × α) :=
  modifyGet fun next => ((next, part), next + 1)

-- The construct with its parts numbered from 0 in source order.
def number (form : Form α) : Form (Nat × α) :=
  ((form.mapM takeNumber).run 0).1

theorem mapM_takeNumber (parts : List α) (next : Nat) :
    (parts.mapM takeNumber).run next =
      (parts.mapIdx fun i part => (next + i, part), next + parts.length) := by
  induction parts generalizing next with
  | nil => rfl
  | cons part parts ih =>
    have first : ((part :: parts).mapM takeNumber).run next =
        (((next, part) :: ((parts.mapM takeNumber).run (next + 1)).1),
          ((parts.mapM takeNumber).run (next + 1)).2) := by
      rw [List.mapM_cons]
      rfl
    rw [first, ih]
    simp [List.mapIdx_cons, Nat.add_assoc, Nat.add_comm 1]

@[simp] theorem children_number (form : Form α) :
    form.number.children = form.children.mapIdx Prod.mk := by
  have := congrArg (fun visit => (visit.run 0).1) (children_mapM takeNumber form)
  simp [mapM_takeNumber] at this
  exact this

theorem sizeOf_lt_of_mem_children [SizeOf α] {part : α} {form : Form α}
    (h : part ∈ form.children) : sizeOf part < sizeOf form := by
  have list {parts : List α} (h : part ∈ parts) := List.sizeOf_lt_of_mem h
  have optional {parts : Option (List α)} (h : part ∈ parts.getD []) :
      sizeOf part < sizeOf parts := by
    cases parts with
    | none => simp at h
    | some parts => have : sizeOf part < sizeOf parts := list h; simp; omega
  cases form <;> simp [children] at h <;> grind

end Form

end Estree
