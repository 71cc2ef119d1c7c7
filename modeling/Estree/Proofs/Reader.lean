import Estree.Node.Builders
import Estree.Proofs.Tokens

namespace Estree

-- What some tokens start with, as far as the first two of them tell.
inductive Opening where
  | nothing
  | expression
  | block
  | returning
  | throwing
  | branch
  | whileLoop
  | forLoop
  | declaration (kind : VariableKind)
  | function (async : Bool)
  deriving DecidableEq

namespace SourceToken

-- Names that are also the first word of a statement are taken for such only before another word.
def openingOfWord (name : String) (next : Option SourceToken) : Opening :=
  match name, next with
  | "return", _ => .returning
  | "throw", _ => .throwing
  | "if", _ => .branch
  | "while", _ => .whileLoop
  | "for", _ => .forLoop
  | "var", _ => .declaration .var
  | "const", _ => .declaration .const
  | "function", _ => .function false
  | "let", some (.word _) => .declaration .let
  | "async", some (.word _) => .function true
  | _, _ => .expression

def opening : List SourceToken → Opening
  | .word name :: rest => openingOfWord name rest.head?
  | .quoted _ :: _ => .expression
  | .mark c :: _ => if c = '(' then .expression else if c = '\x7b' then .block else .nothing
  | [] => .nothing

def expect (c : Char) : List SourceToken → Option (List SourceToken)
  | .mark d :: rest => if c = d then some rest else none
  | _ => none

-- The tokens without a mark in front, if it is there.
def skip (c : Char) : List SourceToken → List SourceToken
  | .mark d :: rest => if c = d then rest else .mark d :: rest
  | tokens => tokens

theorem length_skip_le (c : Char) (tokens : List SourceToken) :
    (skip c tokens).length ≤ tokens.length := by
  unfold skip
  split
  · split <;> simp
  · exact Nat.le_refl _

theorem length_lt_append {used : List SourceToken} (hne : used ≠ []) (rest : List SourceToken) :
    rest.length < (used ++ rest).length := by
  rw [List.length_append]
  exact Nat.lt_add_of_pos_left (List.length_pos_iff.mpr hne)

theorem length_lt_append_cons (used : List SourceToken) (token : SourceToken)
    (rest : List SourceToken) : rest.length < (used ++ token :: rest).length := by
  rw [List.length_append, List.length_cons]
  omega

theorem length_skip_lt (c : Char) {used : List SourceToken} (hne : used ≠ [])
    (rest : List SourceToken) : (skip c rest).length < (used ++ rest).length :=
  Nat.lt_of_le_of_lt (length_skip_le c rest) (length_lt_append hne rest)

-- The tokens that are left, if they are fewer than before. Readers call each other on such tokens
-- only, and so they come to an end.
def fewer (before rest : List SourceToken) :
    Option {rest : List SourceToken // rest.length < before.length} :=
  if h : rest.length < before.length then some ⟨rest, h⟩ else none

theorem fewer_eq {before rest : List SourceToken} (h : rest.length < before.length) :
    fewer before rest = some ⟨rest, h⟩ :=
  dif_pos h

mutual

def readExpression (tokens : List SourceToken) : Option (Node × List SourceToken) := do
  let (head, rest) ← readHead tokens
  let ⟨rest, _⟩ ← fewer tokens rest
  readLinks head rest
termination_by (tokens.length, 1)

-- An expression up to the first link.
def readHead (tokens : List SourceToken) : Option (Node × List SourceToken) :=
  match tokens with
  | .word name :: rest => some (if name = "this" then .this else .identifier name, rest)
  | .quoted chars :: rest => some (.string (String.ofList (Text.unescape chars)), rest)
  | .mark '(' :: inner => do
    let (test, rest) ← readExpression inner
    let ⟨rest, _⟩ ← fewer inner (← expect '?' rest)
    let (consequent, rest) ← readExpression rest
    let ⟨rest, _⟩ ← fewer inner (← expect ':' rest)
    let (alternate, rest) ← readExpression rest
    let rest ← expect ')' rest
    return (⟨.conditionalExpression test consequent alternate⟩, rest)
  | _ => none
termination_by (tokens.length, 0)

-- The members and calls that are linked to an expression.
def readLinks (expression : Node) (tokens : List SourceToken) : Option (Node × List SourceToken) :=
  match tokens with
  | .mark '.' :: .word name :: rest => readLinks (.member expression name) rest
  | .mark '[' :: inner => do
    let (key, rest) ← readExpression inner
    let ⟨rest, _⟩ ← fewer inner (← expect ']' rest)
    readLinks (.computedMember expression key) rest
  | .mark '(' :: inner => do
    let (arguments, rest) ← readItems inner
    let ⟨rest, _⟩ ← fewer inner (← expect ')' rest)
    readLinks (.call expression arguments) rest
  | rest => some (expression, rest)
termination_by (tokens.length, 0)

def readItems (tokens : List SourceToken) : Option (List Node × List SourceToken) :=
  if opening tokens = .expression then do
    let (item, rest) ← readExpression tokens
    let ⟨rest, _⟩ ← fewer tokens (skip ',' rest)
    let (items, rest) ← readItems rest
    return (item :: items, rest)
  else
    some ([], tokens)
termination_by (tokens.length, 2)

end

def readOptional (tokens : List SourceToken) : Option (Option Node × List SourceToken) :=
  if opening tokens = .expression then do
    let (expression, rest) ← readExpression tokens
    return (some expression, rest)
  else
    some (none, tokens)

def readDeclarators (tokens : List SourceToken) : Option (List Node × List SourceToken) :=
  match tokens with
  | .word name :: tail => do
    let (init, rest) ← readOptional (skip '=' tail)
    let ⟨rest, _⟩ ← fewer (.word name :: tail) (skip ',' rest)
    let (declarators, rest) ← readDeclarators rest
    return (.declarator name init :: declarators, rest)
  | rest => some ([], rest)
termination_by tokens.length
decreasing_by assumption

def readDeclaration (kind : VariableKind) (tokens : List SourceToken) :
    Option (Node × List SourceToken) := do
  let (declarators, rest) ← readDeclarators tokens
  return (.declaration kind declarators, rest)

def readInit (tokens : List SourceToken) : Option (Option Node × List SourceToken) :=
  match opening tokens with
  | .declaration kind => do
    let (declaration, rest) ← readDeclaration kind tokens.tail
    return (some declaration, rest)
  | _ => readOptional tokens

def readParams : List SourceToken → List Node × List SourceToken
  | .word name :: .mark ',' :: rest =>
    let (params, rest) := readParams rest
    (.identifier name :: params, rest)
  | .word name :: rest => ([.identifier name], rest)
  | rest => ([], rest)

mutual

def readStatement (tokens : List SourceToken) : Option (Node × List SourceToken) :=
  match opening tokens with
  | .nothing => none
  | .expression => do
    let (expression, rest) ← readExpression tokens
    let rest ← expect ';' rest
    return (.statement expression, rest)
  | .block => do
    let ⟨inner, _⟩ ← fewer tokens tokens.tail
    let (body, rest) ← readStatements inner
    let rest ← expect '\x7d' rest
    return (.block body, rest)
  | .returning => do
    let (argument, rest) ← readOptional tokens.tail
    let rest ← expect ';' rest
    return (.returning argument, rest)
  | .throwing => do
    let (argument, rest) ← readExpression tokens.tail
    let rest ← expect ';' rest
    return (⟨.throwStatement argument⟩, rest)
  | .declaration kind => do
    let (declaration, rest) ← readDeclaration kind tokens.tail
    let rest ← expect ';' rest
    return (declaration, rest)
  | .branch => do
    let rest ← expect '(' tokens.tail
    let (test, rest) ← readExpression rest
    let ⟨rest, _⟩ ← fewer tokens (← expect ')' rest)
    let (consequent, rest) ← readStatement rest
    return (⟨.ifStatement test consequent none⟩, rest)
  | .whileLoop => do
    let rest ← expect '(' tokens.tail
    let (test, rest) ← readExpression rest
    let ⟨rest, _⟩ ← fewer tokens (← expect ')' rest)
    let (body, rest) ← readStatement rest
    return (⟨.whileStatement test body⟩, rest)
  | .forLoop => do
    let rest ← expect '(' tokens.tail
    let (init, rest) ← readInit rest
    let rest ← expect ';' rest
    let (test, rest) ← readOptional rest
    let rest ← expect ';' rest
    let (update, rest) ← readOptional rest
    let ⟨rest, _⟩ ← fewer tokens (← expect ')' rest)
    let (body, rest) ← readStatement rest
    return (⟨.forStatement init test update body⟩, rest)
  | .function async =>
    let tail := if async then tokens.tail.tail else tokens.tail
    match skip '*' tail with
    | .word name :: rest => do
      let rest ← expect '(' rest
      let (params, rest) := readParams rest
      let ⟨rest, _⟩ ← fewer tokens (← expect ')' rest)
      let (body, rest) ← readStatement rest
      return (⟨.functionDeclaration (some (.identifier name)) params body
        (tail.head? = some (.mark '*')) async⟩, rest)
    | _ => none
termination_by (tokens.length, 0)

def readStatements (tokens : List SourceToken) : Option (List Node × List SourceToken) :=
  if opening tokens = .nothing then some ([], tokens)
  else do
    let (statement, rest) ← readStatement tokens
    let ⟨rest, _⟩ ← fewer tokens rest
    let (statements, rest) ← readStatements rest
    return (statement :: statements, rest)
termination_by (tokens.length, 1)

end

end SourceToken

-- The program of a text.
def Node.read (text : String) : Option Node := do
  let (body, rest) ← SourceToken.readStatements (Text.tokens text.toList)
  if rest = [] then return .program body else none

end Estree
