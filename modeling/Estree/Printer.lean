import Estree.Parents
import Estree.Template

namespace Estree

-- Whether child `i` of a loop stands in its head, where the loop ends a declaration.
def Form.isLoopHead {α : Type} (form : Form α) (i : Nat) : Bool :=
  match form with
  | .forStatement (some _) .. => i == 0
  | .forInStatement .. => i == 0
  | _ => false

namespace Parent

-- Whether a parent has the node at a position in its head. A loop over the values of an object has
-- no form of its own, so whatever is said to stand in one is taken to stand in its head.
def hasInHead (parent : Parent) (position : Position) : Bool :=
  match parent, position with
  | .within parent, i :: rest => rest == parent.position && parent.node.form.isLoopHead i
  | .within _, [] => false
  | .foreign parent, _ =>
    match parent.form with
    | .unmodeled kind => kind == "ForOfStatement"
    | _ => false

end Parent

-- Prints the nodes of a tree as source text.
structure Printer where
  parents : ParentLookup
  options : PrintOptions

namespace Printer

def inLoopHead (printer : Printer) (cursor : Cursor) : Bool :=
  (printer.parents cursor.position).any fun parent => parent.hasInHead cursor.position

def template (printer : Printer) (cursor : Cursor) : Except Unsupported (Template Cursor) :=
  cursor.form.template (printer.inLoopHead cursor)

-- The text of one node, where `visit` gives the texts of the nodes below it.
def render {m : Type → Type} [Monad m] [MonadExceptOf Unsupported m] (printer : Printer)
    (cursor : Cursor) (visit : Cursor → m String) : m String := do
  let template ← MonadExcept.ofExcept (printer.template cursor)
  let texts ← template.parts.mapM visit
  return template.assemble printer.options texts

theorem sizeOf_lt_of_mem_parts {printer : Printer} {cursor child : Cursor}
    {template : Template Cursor} (ht : printer.template cursor = .ok template)
    (hc : child ∈ template.parts) : sizeOf child.node < sizeOf cursor.node := by
  rw [Form.parts_template ht] at hc
  exact Cursor.sizeOf_lt_of_mem_children (Form.mem_children_of_mem_printed hc)

-- The text of a node and all below it.
def print (printer : Printer) (cursor : Cursor) : Except Unsupported String :=
  match _h : printer.template cursor with
  | .error e => .error e
  | .ok template => do
    let texts ← template.parts.attach.mapM fun ⟨child, _⟩ => printer.print child
    return template.assemble printer.options texts
termination_by sizeOf cursor.node
decreasing_by exact sizeOf_lt_of_mem_parts ‹_› ‹_›

-- Printing a node is rendering it with the texts printed for the nodes below.
theorem print_eq_render (printer : Printer) (cursor : Cursor) :
    printer.print cursor = printer.render cursor printer.print := by
  rw [print, render]
  split <;> rename_i h <;> rw [h]
  · rfl
  · simp
    rfl

end Printer

namespace Node

-- The source text of a tree.
def print (tree : Node) (options : PrintOptions) : Except Unsupported String :=
  Printer.print ⟨.ofTable (.build tree), options⟩ (.root tree)

end Node

end Estree
