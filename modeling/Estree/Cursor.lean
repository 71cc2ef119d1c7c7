import Estree.Node

namespace Estree

-- Where a node stands in a tree: the numbers of the children to descend to, the last step first.
-- The root stands at `[]`, and child `i` of the node at `p` stands at `i :: p`.
abbrev Position := List Nat

-- A node of a tree together with its place. Two nodes that look alike are told apart by it.
structure Cursor where
  position : Position
  node : Node

namespace Cursor

def root (tree : Node) : Cursor :=
  ⟨[], tree⟩

-- The construct at the cursor, its parts being cursors too.
def form (cursor : Cursor) : Form Cursor :=
  cursor.node.form.number.map fun (i, child) => ⟨i :: cursor.position, child⟩

-- The cursors one step down, in source order.
def children (cursor : Cursor) : List Cursor :=
  cursor.form.children

theorem children_eq_mapIdx (cursor : Cursor) :
    cursor.children = cursor.node.children.mapIdx fun i child => ⟨i :: cursor.position, child⟩ := by
  simp [children, form, Node.children, List.mapIdx_eq_zipIdx_map, Function.comp_def]

@[simp] theorem map_node_children (cursor : Cursor) :
    cursor.children.map node = cursor.node.children := by
  apply List.ext_getElem <;> simp [children_eq_mapIdx]

theorem mem_children {cursor child : Cursor} (h : child ∈ cursor.children) :
    child.node ∈ cursor.node.children := by
  rw [← map_node_children]
  exact List.mem_map_of_mem h

theorem sizeOf_lt_of_mem_children {cursor child : Cursor} (h : child ∈ cursor.children) :
    sizeOf child.node < sizeOf cursor.node :=
  Node.sizeOf_lt_of_mem_children (mem_children h)

-- The cursor reached by descending to the numbered children, the first step first.
def descend? (cursor : Cursor) : List Nat → Option Cursor
  | [] => some cursor
  | i :: path => cursor.children[i]?.bind fun child => child.descend? path

-- The cursor itself and all below it, every node before its children.
def preorder (cursor : Cursor) : List Cursor :=
  cursor :: cursor.children.attach.flatMap fun ⟨child, _⟩ => child.preorder
termination_by sizeOf cursor.node
decreasing_by exact sizeOf_lt_of_mem_children ‹_›

end Cursor

end Estree
