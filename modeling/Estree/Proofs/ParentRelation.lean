import Mathlib.Data.List.Nodup
import Mathlib.Logic.ExistsUnique
import Mathlib.Logic.Function.Iterate
import Estree.Proofs.ParentLinks
import Estree.Proofs.Refusals

namespace Estree

namespace Form

variable {α : Type}

theorem run_mapM_takePart_of_length {β : Type} {holes : List β} {parts : List α}
    (h : parts.length = holes.length) :
    (holes.mapM fun _ => takePart).run parts = some (parts, []) := by
  induction holes generalizing parts with
  | nil =>
    obtain rfl := List.length_eq_zero_iff.mp h
    rfl
  | cons hole holes ih =>
    obtain ⟨part, parts, rfl⟩ := List.exists_cons_of_length_eq_add_one h
    have hrest : parts.length = holes.length := by simpa using h
    simp [ih hrest]

-- Filling a construct anew leaves it the same apart from its parts.
theorem outline_mapM_takePart (form : Form α) :
    outline <$> (form.mapM fun _ => (takePart : StateT (List α) Option α)) =
      (fun _ => form.outline) <$> form.mapM fun _ => (takePart : StateT (List α) Option α) := by
  have hblind := mapM_const (fun _ : Unit => (takePart : StateT (List α) Option α)) form.outline
  rw [outline, mapM_map, mapM_map] at hblind
  exact (map_mapM _ _ form).trans hblind

-- The parts of a construct are all that its fields hold, each of them once: they can be exchanged
-- for any others, and this leaves nothing of the construct open.
theorem existsUnique_refilled (form : Form α) {parts : List α}
    (h : parts.length = form.children.length) :
    ∃! other : Form α, other.outline = form.outline ∧ other.children = parts := by
  have hchildren := congrArg (fun visit => visit.run parts)
    (children_mapM (fun _ => (takePart : StateT (List α) Option α)) form)
  have houtline := congrArg (fun visit => visit.run parts) (outline_mapM_takePart form)
  simp only [StateT.run_map, run_mapM_takePart_of_length h] at hchildren houtline
  obtain ⟨⟨other, rest⟩, hother, hpair⟩ := Option.map_eq_some_iff.mp hchildren
  rw [hother] at houtline
  have hsame : other.outline = form.outline :=
    congrArg Prod.fst (Option.some.inj houtline)
  have hparts : other.children = parts := congrArg Prod.fst hpair
  refine ⟨other, ⟨hsame, hparts⟩, ?_⟩
  rintro another ⟨hanother, hfilled⟩
  exact eq_of_map_eq (fun _ => ()) (hanother.trans hsame.symm) (hfilled.trans hparts.symm)

end Form

namespace Node

theorem size_pos (node : Node) : 0 < node.size := by
  rw [size_eq]
  omega

theorem forestSize_eq_zero_iff {nodes : List Node} : forestSize nodes = 0 ↔ nodes = [] := by
  cases nodes with
  | nil => simp [forestSize]
  | cons node nodes =>
    have hpos := node.size_pos
    simp only [forestSize_cons, reduceCtorEq, iff_false]
    omega

end Node

namespace Cursor

theorem length_preorder (cursor : Cursor) : cursor.preorder.length = cursor.node.size := by
  induction cursor using induction with
  | step cursor ih =>
    have hbelow (children : List Cursor) (h : ∀ child ∈ children, child ∈ cursor.children) :
        (children.flatMap preorder).length = Node.forestSize (children.map node) := by
      induction children with
      | nil => rfl
      | cons child children ihc =>
        rw [List.flatMap_cons, List.length_append, List.map_cons, Node.forestSize_cons,
          ih child (h child List.mem_cons_self),
          ihc fun other hother => h other (List.mem_cons_of_mem child hother)]
    rw [preorder_eq, List.length_cons, hbelow cursor.children fun _ => id, map_node_children,
      Node.size_eq]

theorem nodup_preorder (cursor : Cursor) : cursor.preorder.Nodup := by
  induction cursor using induction with
  | step cursor ih =>
    rw [preorder_eq, List.nodup_cons, List.nodup_flatMap]
    refine ⟨?_, ih, ?_⟩
    · intro hmem
      obtain ⟨child, hchild, hbelow⟩ := List.mem_flatMap.mp hmem
      have := length_lt_of_mem_preorder_child hchild hbelow
      omega
    · -- what stands below two children makes them the same child
      refine cursor.nodup_children.pairwise_of_forall_ne fun a ha b hb hne => ?_
      intro other hother hboth
      exact hne (eq_of_mem_preorder_of_mem_preorder ha hb hother hboth)

theorem nodup_positions (cursor : Cursor) : (cursor.preorder.map position).Nodup :=
  cursor.nodup_preorder.map_on fun _ ha _ hb => eq_of_position_eq ha hb

theorem ne_nil_of_mem_children {cursor child : Cursor} (h : child ∈ cursor.children) :
    child.position ≠ [] := by
  obtain ⟨i, -, hposition⟩ := exists_number h
  simp [hposition]

-- The nodes below the root are those that stand right below some node.
theorem mem_tail_preorder_iff {tree : Node} {cursor : Cursor} :
    cursor ∈ (root tree).preorder.tail ↔
      ∃ parent ∈ (root tree).preorder, cursor ∈ parent.children := by
  have htail : (root tree).preorder.tail = (root tree).children.flatMap preorder := by
    rw [preorder_eq, List.tail_cons]
  constructor
  · intro hmem
    rcases exists_parent (List.mem_of_mem_tail hmem) with rfl | hparent
    · rw [htail] at hmem
      obtain ⟨child, hchild, hbelow⟩ := List.mem_flatMap.mp hmem
      have := length_lt_of_mem_preorder_child hchild hbelow
      omega
    · exact hparent
  · rintro ⟨parent, hparent, hchild⟩
    have hmem := mem_preorder_trans hparent (mem_preorder_of_mem_children hchild)
    rcases mem_preorder.mp hmem with rfl | ⟨child, hchild, hbelow⟩
    · exact absurd rfl (ne_nil_of_mem_children hchild)
    · rw [htail]
      exact List.mem_flatMap.mpr ⟨child, hchild, hbelow⟩

end Cursor

namespace ParentTable

-- A table on the way: the nodes whose children are still to be entered, and the entries so far.
structure Walk where
  pending : List Cursor
  entries : Std.HashMap Position Cursor

namespace Walk

-- Where the table of a tree starts from.
def start (tree : Node) : Walk :=
  ⟨[Cursor.root tree], ∅⟩

-- One round: a pending node gives way to its children.
def step (walk : Walk) : Walk :=
  match walk.pending with
  | [] => walk
  | parent :: pending =>
    ⟨parent.children.reverse ++ pending,
      parent.children.foldl (fun entries child => entries.insert child.position parent)
        walk.entries⟩

-- The nodes that are pending, and those below them.
def remaining (walk : Walk) : Nat :=
  Node.forestSize (walk.pending.map Cursor.node)

theorem remaining_start (tree : Node) : (start tree).remaining = tree.size := rfl

theorem pending_eq_nil_iff {walk : Walk} : walk.pending = [] ↔ walk.remaining = 0 := by
  rw [remaining, Node.forestSize_eq_zero_iff, List.map_eq_nil_iff]

theorem remaining_step (walk : Walk) : walk.step.remaining = walk.remaining - 1 := by
  obtain ⟨pending, entries⟩ := walk
  cases pending with
  | nil => rfl
  | cons parent pending =>
    simp only [remaining, step, List.map_append, List.map_reverse, Cursor.map_node_children,
      List.map_cons, Node.forestSize_append, Node.forestSize_reverse, Node.forestSize_cons,
      Node.size_eq parent.node]
    omega

theorem fill_step (walk : Walk) :
    fill walk.step.pending walk.step.entries = fill walk.pending walk.entries := by
  obtain ⟨pending, entries⟩ := walk
  cases pending with
  | nil => rfl
  | cons parent pending =>
    conv_rhs => rw [fill]
    rfl

theorem remaining_iterate (rounds : Nat) (walk : Walk) :
    (step^[rounds] walk).remaining = walk.remaining - rounds := by
  induction rounds generalizing walk with
  | zero => rfl
  | succ rounds ih =>
    rw [Function.iterate_succ_apply, ih, remaining_step]
    omega

theorem fill_iterate (rounds : Nat) (walk : Walk) :
    fill (step^[rounds] walk).pending (step^[rounds] walk).entries =
      fill walk.pending walk.entries := by
  induction rounds generalizing walk with
  | zero => rfl
  | succ rounds ih => rw [Function.iterate_succ_apply, ih, fill_step]

-- Nothing is pending after as many rounds as there are nodes, and not before.
theorem pending_iterate_start_eq_nil_iff {tree : Node} {rounds : Nat} :
    (step^[rounds] (start tree)).pending = [] ↔ tree.size ≤ rounds := by
  rw [pending_eq_nil_iff, remaining_iterate, remaining_start, Nat.sub_eq_zero_iff_le]

theorem entries_iterate_start (tree : Node) :
    (step^[tree.size] (start tree)).entries = (build tree).entries := by
  have hfill := fill_iterate tree.size (start tree)
  rw [pending_iterate_start_eq_nil_iff.mpr (Nat.le_refl _), fill] at hfill
  exact hfill

end Walk

theorem mem_entries_build_iff {tree : Node} {position : Position} :
    position ∈ (build tree).entries ↔
      position ∈ (Cursor.root tree).preorder.tail.map Cursor.position := by
  rw [Std.HashMap.mem_iff_isSome_getElem?, Option.isSome_iff_exists, List.mem_map]
  constructor
  · rintro ⟨parent, hparent⟩
    obtain ⟨hmem, hposition⟩ := parent?_build_eq_some_iff.mp hparent
    obtain ⟨child, hchild, rfl⟩ := List.mem_map.mp hposition
    exact ⟨child, Cursor.mem_tail_preorder_iff.mpr ⟨parent, hmem, hchild⟩, rfl⟩
  · rintro ⟨child, hmem, rfl⟩
    obtain ⟨parent, hparent, hchild⟩ := Cursor.mem_tail_preorder_iff.mp hmem
    exact ⟨parent, parent?_build_of_mem_children hparent hchild⟩

-- The table has one entry for every node but the root, and no other.
theorem keys_build_perm (tree : Node) :
    (build tree).entries.keys.Perm
      ((Cursor.root tree).preorder.tail.map Cursor.position) := by
  have hkeys : (build tree).entries.keys.Nodup :=
    Std.HashMap.distinct_keys.imp fun h => by simpa using h
  have hpositions : ((Cursor.root tree).preorder.tail.map Cursor.position).Nodup := by
    rw [List.map_tail]
    exact (Cursor.root tree).nodup_positions.tail
  refine (List.perm_ext_iff_of_nodup hkeys hpositions).mpr fun position => ?_
  rw [Std.HashMap.mem_keys, mem_entries_build_iff]

theorem size_build (tree : Node) : (build tree).size + 1 = tree.size := by
  have hlength := (keys_build_perm tree).length_eq
  rw [Std.HashMap.length_keys, List.length_map, List.length_tail, Cursor.length_preorder] at hlength
  have hpos := tree.size_pos
  rw [size, hlength]
  change tree.size - 1 + 1 = tree.size
  omega

theorem isEmpty_build_iff {tree : Node} : (build tree).isEmpty = true ↔ tree.children = [] := by
  have hsize := size_build tree
  rw [Node.size_eq] at hsize
  rw [isEmpty, Std.HashMap.isEmpty_eq_size_eq_zero, beq_iff_eq, ← Node.forestSize_eq_zero_iff]
  change (build tree).size = 0 ↔ _
  omega

-- The node that so many steps to the parent lead to.
def climb (table : ParentTable) : Nat → Cursor → Option Cursor
  | 0, cursor => some cursor
  | steps + 1, cursor => (table.parent? cursor.position).bind (table.climb steps)

-- A node is as many steps away from the root as it is deep.
theorem climb_build_eq_root_iff {tree : Node} {cursor : Cursor}
    (h : cursor ∈ (Cursor.root tree).preorder) (steps : Nat) :
    (build tree).climb steps cursor = some (Cursor.root tree) ↔
      steps = cursor.position.length := by
  induction steps generalizing cursor with
  | zero =>
    rw [climb, Option.some_inj]
    constructor
    · rintro rfl
      rfl
    · intro hlength
      apply Cursor.eq_of_position_eq h (Cursor.self_mem_preorder _)
      exact List.eq_nil_of_length_eq_zero hlength.symm
  | succ steps ih =>
    rw [climb]
    rcases Cursor.exists_parent h with rfl | ⟨parent, hparent, hchild⟩
    · have hnone : (build tree).parent? (Cursor.root tree).position = none :=
        parent?_build_nil tree
      rw [hnone]
      simp [Cursor.root]
    · rw [parent?_build_of_mem_children hparent hchild, Option.bind_some, ih hparent,
        Cursor.length_position_of_mem_children hchild, Nat.add_right_cancel_iff]

end ParentTable

open ParentTable in
-- The table of a tree is the relation between its nodes and those that directly contain them. The
-- loop that fills it takes one round per node; there is one entry for every node but the root; and
-- the entries lead from every node to the root in as many steps as it is deep. A node contains what
-- the fields of its construct hold, each part once.
theorem build_isParentRelation (tree : Node) :
    ((∀ rounds, (Walk.step^[rounds] (Walk.start tree)).pending = [] ↔ tree.size ≤ rounds) ∧
      (Walk.step^[tree.size] (Walk.start tree)).entries = (build tree).entries) ∧
    (∀ (form : Form Node) (parts : List Node), parts.length = form.children.length →
      ∃! other : Form Node, other.outline = form.outline ∧ other.children = parts) ∧
    (build tree).entries.keys.Perm
      ((Cursor.root tree).preorder.tail.map Cursor.position) ∧
    (∀ position parent, (build tree).parent? position = some parent ↔
      parent ∈ (Cursor.root tree).preorder ∧
        ∃ child ∈ parent.children, child.position = position) ∧
    (build tree).parent? (Cursor.root tree).position = none ∧
    (∀ position, position ∉ (Cursor.root tree).preorder.map Cursor.position →
      (build tree).parent? position = none) ∧
    (build tree).size + 1 = (Cursor.root tree).preorder.length ∧
    ((build tree).isEmpty = true ↔ tree.children = []) ∧
    ∀ cursor ∈ (Cursor.root tree).preorder, ∀ steps,
      (build tree).climb steps cursor = some (Cursor.root tree) ↔
        steps = cursor.position.length := by
  have hentries (position : Position) (parent : Cursor) :
      (build tree).parent? position = some parent ↔
        parent ∈ (Cursor.root tree).preorder ∧
          ∃ child ∈ parent.children, child.position = position := by
    rw [parent?_build_eq_some_iff, List.mem_map]
  refine ⟨⟨fun _ => Walk.pending_iterate_start_eq_nil_iff, Walk.entries_iterate_start tree⟩,
    fun form _ => form.existsUnique_refilled, keys_build_perm tree, hentries,
    parent?_build_nil tree, ?_, ?_, isEmpty_build_iff, fun _ => climb_build_eq_root_iff⟩
  · intro position houtside
    rw [Option.eq_none_iff_forall_ne_some]
    intro parent hparent
    obtain ⟨hmem, child, hchild, rfl⟩ := (hentries position parent).mp hparent
    apply houtside
    exact List.mem_map_of_mem
      (Cursor.mem_preorder_trans hmem (Cursor.mem_preorder_of_mem_children hchild))
  · rw [Cursor.length_preorder]
    exact size_build tree

end Estree
