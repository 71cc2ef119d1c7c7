import Std.Data.HashMap
import Estree.Cursor

namespace Estree

-- For every node of a tree but the root, the node that directly contains it.
structure ParentTable where
  entries : Std.HashMap Position Cursor

namespace ParentTable

-- Enters the children of every pending node, and of the nodes below them. The children of a node
-- are put on top of what is pending one after the other, so the last one is taken up first.
def fill (pending : List Cursor) (entries : Std.HashMap Position Cursor) :
    Std.HashMap Position Cursor :=
  match pending with
  | [] => entries
  | parent :: pending =>
    fill (parent.children.reverse ++ pending)
      (parent.children.foldl (fun entries child => entries.insert child.position parent) entries)
termination_by Node.forestSize (pending.map Cursor.node)
decreasing_by
  rw [List.map_append, List.map_reverse, parent.map_node_children, List.map_cons,
    Node.forestSize_append, Node.forestSize_reverse, Node.forestSize_cons, Node.size_eq]
  omega

def build (root : Node) : ParentTable :=
  ⟨fill [Cursor.root root] ∅⟩

-- The parent of the node at a position.
def parent? (table : ParentTable) (position : Position) : Option Cursor :=
  table.entries[position]?

-- The number of nodes that have a parent.
def size (table : ParentTable) : Nat :=
  table.entries.size

def isEmpty (table : ParentTable) : Bool :=
  table.entries.isEmpty

end ParentTable

-- What is taken for the parent of a node: a node of the same tree, or one of another tree.
inductive Parent where
  | within (parent : Cursor)
  | foreign (parent : Node)

-- Answers which node is the parent of the node at a position, if any is known.
abbrev ParentLookup := Position → Option Parent

namespace ParentLookup

-- Knows no parent.
def unknown : ParentLookup :=
  fun _ => none

-- Knows the parents in a tree.
def ofTable (table : ParentTable) : ParentLookup :=
  fun position => (table.parent? position).map .within

-- Takes one node of another tree for the parent of all nodes.
def claimed (parent : Node) : ParentLookup :=
  fun _ => some (.foreign parent)

end ParentLookup

end Estree
