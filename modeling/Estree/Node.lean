import Estree.Form

namespace Estree

-- A syntax tree: a construct whose parts are syntax trees.
structure Node where
  form : Form Node

namespace Node

-- The direct subtrees, in source order.
def children (node : Node) : List Node :=
  node.form.children

def kindName (node : Node) : String :=
  node.form.kindName

theorem sizeOf_lt_of_mem_children {node child : Node} (h : child ∈ node.children) :
    sizeOf child < sizeOf node := by
  have := Form.sizeOf_lt_of_mem_children h
  cases node
  simp at *
  omega

-- What holds of a tree whenever it holds of its direct subtrees holds of every tree.
@[elab_as_elim]
theorem induction {motive : Node → Prop}
    (step : ∀ node, (∀ child ∈ node.children, motive child) → motive node) (node : Node) :
    motive node :=
  step node fun child _ => induction step child
termination_by sizeOf node
decreasing_by exact sizeOf_lt_of_mem_children ‹_›

-- The number of nodes of a tree.
def size (node : Node) : Nat :=
  node.children.attach.foldr (fun child total => child.val.size + total) 0 + 1
termination_by sizeOf node
decreasing_by exact sizeOf_lt_of_mem_children child.property

-- The number of nodes of several trees together.
def forestSize (nodes : List Node) : Nat :=
  nodes.foldr (fun node total => node.size + total) 0

theorem forestSize_cons (node : Node) (nodes : List Node) :
    forestSize (node :: nodes) = node.size + forestSize nodes :=
  rfl

theorem forestSize_append (front back : List Node) :
    forestSize (front ++ back) = forestSize front + forestSize back := by
  induction front with
  | nil => simp [forestSize]
  | cons node front ih => simp only [List.cons_append, forestSize_cons, ih, Nat.add_assoc]

theorem forestSize_reverse (nodes : List Node) : forestSize nodes.reverse = forestSize nodes := by
  induction nodes with
  | nil => rfl
  | cons node nodes ih =>
    rw [List.reverse_cons, forestSize_append, ih, forestSize_cons, forestSize_cons]
    exact Nat.add_comm _ _

theorem size_eq (node : Node) : node.size = forestSize node.children + 1 := by
  rw [size]
  exact congrArg (· + 1) (List.foldr_attach (f := fun (child : Node) total => child.size + total))

-- Two trees are the same if they agree on every level. Numbers are compared as numbers: a zero is
-- the same whatever its sign, and what is not a number differs from itself.
def same (a b : Node) : Bool :=
  a.form.outline == b.form.outline &&
    (a.children.attach.zip b.children).all fun (⟨child, _⟩, other) => child.same other
termination_by sizeOf a
decreasing_by exact sizeOf_lt_of_mem_children ‹_›

end Node

end Estree
