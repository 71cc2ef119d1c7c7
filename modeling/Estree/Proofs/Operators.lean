import Estree.Proofs.ExpressionReading

namespace Estree

open Text

inductive UnaryOp where
  | minus
  | plus
  | not
  | complement
  | typeof
  | void
  | delete
  deriving DecidableEq

namespace UnaryOp

def text : UnaryOp → String
  | minus => "-"
  | plus => "+"
  | not => "!"
  | complement => "~"
  | typeof => "typeof"
  | void => "void"
  | delete => "delete"

def isWord : UnaryOp → Bool
  | typeof | void | delete => true
  | _ => false

-- The operator as it stands in front of its operand.
def chars (op : UnaryOp) : List Char :=
  op.text.toList ++ if op.isWord then [' '] else []

theorem toList_afterOperator (op : UnaryOp) :
    (Form.afterOperator op.text).toList = if op.isWord then [' '] else [] := by
  cases op <;> decide +kernel

-- A sign in front of itself is the operator of an update.
def mergesWith (op : UnaryOp) (chars : List Char) : Bool :=
  match op with
  | minus => chars.head? = some '-'
  | plus => chars.head? = some '+'
  | _ => false

theorem mergesWith_append (op : UnaryOp) {chars : List Char} (h : chars ≠ []) (rest : List Char) :
    op.mergesWith (chars ++ rest) = op.mergesWith chars := by
  obtain ⟨c, chars, rfl⟩ := List.exists_cons_of_ne_nil h
  rfl

end UnaryOp

inductive UpdateOp where
  | increment
  | decrement
  deriving DecidableEq

namespace UpdateOp

def text : UpdateOp → String
  | increment => "++"
  | decrement => "--"

end UpdateOp

inductive BinaryOp where
  | bitOr
  | bitXor
  | bitAnd
  | equal
  | notEqual
  | strictEqual
  | strictNotEqual
  | less
  | lessEqual
  | greater
  | greaterEqual
  | isIn
  | isInstance
  | shiftLeft
  | shiftRight
  | shiftRightUnsigned
  | add
  | subtract
  | multiply
  | divide
  | remainder
  | power
  deriving DecidableEq

namespace BinaryOp

def text : BinaryOp → String
  | bitOr => "|"
  | bitXor => "^"
  | bitAnd => "&"
  | equal => "=="
  | notEqual => "!="
  | strictEqual => "==="
  | strictNotEqual => "!=="
  | less => "<"
  | lessEqual => "<="
  | greater => ">"
  | greaterEqual => ">="
  | isIn => "in"
  | isInstance => "instanceof"
  | shiftLeft => "<<"
  | shiftRight => ">>"
  | shiftRightUnsigned => ">>>"
  | add => "+"
  | subtract => "-"
  | multiply => "*"
  | divide => "/"
  | remainder => "%"
  | power => "**"

def all : List BinaryOp :=
  [bitOr, bitXor, bitAnd, equal, notEqual, strictEqual, strictNotEqual, less, lessEqual, greater,
   greaterEqual, isIn, isInstance, shiftLeft, shiftRight, shiftRightUnsigned, add, subtract,
   multiply, divide, remainder, power]

theorem find?_text (op : BinaryOp) : (all.find? fun other => other.text = op.text) = some op := by
  cases op <;> decide

theorem text_injective {a b : BinaryOp} (h : a.text = b.text) : a = b := by
  have hfind := find?_text a
  rw [h, find?_text b] at hfind
  exact (Option.some.inj hfind).symm

theorem avoids_text (op : BinaryOp) : Avoids [' '] op.text.toList := by
  cases op <;> decide

-- How tightly an operator binds.
def level : BinaryOp → Nat
  | bitOr => 1
  | bitXor => 2
  | bitAnd => 3
  | equal | notEqual | strictEqual | strictNotEqual => 4
  | less | lessEqual | greater | greaterEqual | isIn | isInstance => 5
  | shiftLeft | shiftRight | shiftRightUnsigned => 6
  | add | subtract => 7
  | multiply | divide | remainder => 8
  | power => 9

-- Whether an operator behind the right operand of another takes that operand from it. Among equals
-- only powers do.
def bindsInto (inner outer : BinaryOp) : Bool :=
  outer.level < inner.level || (inner = power && outer = power)

theorem bindsInto_iff {inner outer : BinaryOp} :
    inner.bindsInto outer = true ↔
      outer.level < inner.level ∨ (inner = power ∧ outer = power) := by
  simp [bindsInto]

theorem level_lt_of_ne_power {op : BinaryOp} (h : op ≠ power) : op.level < power.level := by
  cases op <;> first | exact absurd rfl h | decide

theorem bindsInto_trans {a b c : BinaryOp} (hab : a.bindsInto b = true)
    (hbc : b.bindsInto c = true) : a.bindsInto c = true := by
  rw [bindsInto_iff] at hab hbc ⊢
  rcases hab with hab | ⟨rfl, rfl⟩
  · rcases hbc with hbc | ⟨rfl, rfl⟩
    · exact .inl (Nat.lt_trans hbc hab)
    · exact .inl hab
  · exact hbc

-- An operator that leaves the left operand alone binds no tighter than the operators in it.
theorem bindsInto_of_not_bindsInto {inner outer left : BinaryOp}
    (h : inner.bindsInto outer = true) (hleft : inner.bindsInto left = false) :
    left.bindsInto outer = true := by
  have hnot : ¬ (left.level < inner.level ∨ (inner = power ∧ left = power)) := by
    rw [← bindsInto_iff, hleft]
    decide
  rw [bindsInto_iff] at h ⊢
  rcases h with h | ⟨rfl, rfl⟩
  · left
    omega
  · by_cases hpower : left = power
    · exact absurd (.inr ⟨rfl, hpower⟩) hnot
    · exact absurd (.inl (level_lt_of_ne_power hpower)) hnot

def chars (op : BinaryOp) : List Char :=
  ' ' :: (op.text.toList ++ [' '])

end BinaryOp

@[ext]
structure Identifier where
  text : String
  valid : IsIdentifier text

-- Expressions of names and operators.
inductive Formula where
  | name (id : Identifier)
  | unary (op : UnaryOp) (argument : Formula)
  | update (op : UpdateOp) (leading : Bool) (argument : Formula)
  | binary (op : BinaryOp) (left right : Formula)

namespace Formula

def toNode : Formula → Node
  | .name id => .identifier id.text
  | unary op argument => ⟨.unaryExpression op.text argument.toNode true⟩
  | update op leading argument => ⟨.updateExpression op.text argument.toNode leading⟩
  | binary op left right => .binary left.toNode op.text right.toNode

def chars : Formula → List Char
  | .name id => id.text.toList
  | unary op argument => op.chars ++ argument.chars
  | update op true argument => op.text.toList ++ argument.chars
  | update op false argument => argument.chars ++ op.text.toList
  | binary op left right => left.chars ++ op.chars ++ right.chars

theorem printIn_toNode (options : PrintOptions) (formula : Formula) :
    formula.toNode.printIn options false = .ok (String.ofList formula.chars) := by
  induction formula with
  | name id => simp [toNode, chars, Node.printIn_identifier]
  | unary op argument ih =>
    have hparts : [argument.toNode].mapM (Node.printIn options false) =
        .ok [String.ofList argument.chars] := mapM_cons_of_ok ih rfl
    refine Node.printIn_of_template rfl rfl hparts ?_
    apply String.toList_inj.mp
    simp [Template.assemble, Piece.part, Arrangement.write, chars, UnaryOp.chars,
      UnaryOp.toList_afterOperator]
  | update op leading argument ih =>
    have hparts : [argument.toNode].mapM (Node.printIn options false) =
        .ok [String.ofList argument.chars] := mapM_cons_of_ok ih rfl
    cases leading with
    | true | false =>
      refine Node.printIn_of_template rfl rfl hparts ?_
      apply String.toList_inj.mp
      simp [Template.assemble, Piece.part, Arrangement.write, chars]
  | binary op left right ihleft ihright =>
    have hparts : [left.toNode, right.toNode].mapM (Node.printIn options false) =
        .ok [String.ofList left.chars, String.ofList right.chars] :=
      mapM_cons_of_ok ihleft (mapM_cons_of_ok ihright rfl)
    refine Node.printIn_of_template rfl rfl hparts ?_
    apply String.toList_inj.mp
    simp [Template.assemble, Piece.part, Arrangement.write, chars, BinaryOp.chars]

theorem print_toNode (formula : Formula) (options : PrintOptions) :
    formula.toNode.print options = .ok (String.ofList formula.chars) := by
  rw [Printer.print_root, printIn_toNode]

end Formula

end Estree
