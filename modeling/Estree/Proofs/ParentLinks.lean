import Estree.Parents
import Estree.Proofs.Positions

namespace Estree.ParentTable

-- Entering the children of a node sets the entries of their positions and no others.
theorem getElem?_foldl_insert (parent : Cursor) (children : List Cursor)
    (entries : Std.HashMap Position Cursor) (position : Position) :
    (children.foldl (fun entries child => entries.insert child.position parent) entries)[position]? =
      if position ∈ children.map Cursor.position then some parent else entries[position]? := by
  induction children generalizing entries with
  | nil => simp
  | cons child children ih =>
    rw [List.foldl_cons, ih, Std.HashMap.getElem?_insert]
    by_cases hmem : position ∈ children.map Cursor.position
    · simp [hmem]
    · by_cases heq : child.position = position
      · simp [heq]
      · simp [heq, hmem, Ne.symm heq]

-- Every entry was there before or names the node that directly contains its position.
theorem getElem?_fill_eq_some {pending : List Cursor} {entries : Std.HashMap Position Cursor}
    {position : Position} {parent : Cursor}
    (h : (fill pending entries)[position]? = some parent) :
    entries[position]? = some parent ∨
      (∃ top ∈ pending, parent ∈ top.preorder) ∧
        position ∈ parent.children.map Cursor.position := by
  fun_induction fill pending entries with
  | case1 entries => exact .inl h
  | case2 entries top pending ih =>
    rcases ih h with hentry | ⟨⟨next, hnext, hparent⟩, hposition⟩
    · rw [getElem?_foldl_insert] at hentry
      split at hentry
      · rename_i hmem
        obtain rfl : top = parent := by simpa using hentry
        exact .inr ⟨⟨top, by simp, Cursor.self_mem_preorder top⟩, hmem⟩
      · exact .inl hentry
    · refine .inr ⟨?_, hposition⟩
      rcases List.mem_append.mp hnext with hchild | hpending
      · have hbelow := Cursor.mem_preorder_of_mem_children (List.mem_reverse.mp hchild)
        exact ⟨top, by simp, Cursor.mem_preorder_trans hbelow hparent⟩
      · exact ⟨next, by simp [hpending], hparent⟩

theorem isSome_fill_of_isSome {pending : List Cursor} {entries : Std.HashMap Position Cursor}
    {position : Position} (h : entries[position]?.isSome) :
    (fill pending entries)[position]?.isSome := by
  fun_induction fill pending entries with
  | case1 entries => exact h
  | case2 entries top pending ih =>
    apply ih
    rw [getElem?_foldl_insert]
    split
    · rfl
    · exact h

-- No child of a node that is pending, or lies below one that is, is left out.
theorem isSome_fill_of_mem_children {pending : List Cursor}
    {entries : Std.HashMap Position Cursor} {top parent child : Cursor} (htop : top ∈ pending)
    (hparent : parent ∈ top.preorder) (hchild : child ∈ parent.children) :
    (fill pending entries)[child.position]?.isSome := by
  fun_induction fill pending entries generalizing top with
  | case1 entries => simp at htop
  | case2 entries first pending ih =>
    rcases List.mem_cons.mp htop with rfl | hpending
    · rcases Cursor.mem_preorder.mp hparent with rfl | ⟨next, hnext, hbelow⟩
      · apply isSome_fill_of_isSome
        rw [getElem?_foldl_insert, if_pos (List.mem_map_of_mem hchild)]
        rfl
      · exact ih (List.mem_append_left _ (List.mem_reverse.mpr hnext)) hbelow
    · exact ih (List.mem_append_right _ hpending) hparent

-- The table of a tree holds the links between its nodes and their children, and nothing else.
theorem parent?_build_eq_some_iff {tree : Node} {position : Position} {parent : Cursor} :
    (build tree).parent? position = some parent ↔
      parent ∈ (Cursor.root tree).preorder ∧
        position ∈ parent.children.map Cursor.position := by
  have hsound {parent : Cursor} (h : (build tree).parent? position = some parent) :
      parent ∈ (Cursor.root tree).preorder ∧ position ∈ parent.children.map Cursor.position := by
    rcases getElem?_fill_eq_some h with hentry | ⟨⟨top, htop, hparent⟩, hposition⟩
    · simp at hentry
    · obtain rfl : top = Cursor.root tree := by simpa using htop
      exact ⟨hparent, hposition⟩
  refine ⟨hsound, ?_⟩
  rintro ⟨hparent, hposition⟩
  obtain ⟨child, hchild, rfl⟩ := List.mem_map.mp hposition
  have hentered : ((build tree).parent? child.position).isSome :=
    isSome_fill_of_mem_children (List.mem_singleton_self _) hparent hchild
  obtain ⟨entered, heq⟩ := Option.isSome_iff_exists.mp hentered
  obtain ⟨hentered, hposition⟩ := hsound heq
  obtain ⟨other, hother, hsame⟩ := List.mem_map.mp hposition
  -- the position of a child tells the position of its parent, and that tells the parent
  obtain ⟨i, -, hi⟩ := Cursor.exists_number hchild
  obtain ⟨j, -, hj⟩ := Cursor.exists_number hother
  have hposition : entered.position = parent.position := by
    rw [hi, hj] at hsame
    exact (List.cons.inj hsame).2
  rw [heq, Cursor.eq_of_position_eq hentered hparent hposition]

-- Nothing contains the root.
theorem parent?_build_nil (tree : Node) : (build tree).parent? [] = none := by
  rw [Option.eq_none_iff_forall_ne_some]
  intro parent h
  obtain ⟨-, hposition⟩ := parent?_build_eq_some_iff.mp h
  obtain ⟨child, hchild, hnil⟩ := List.mem_map.mp hposition
  obtain ⟨i, -, hi⟩ := Cursor.exists_number hchild
  simp [hnil] at hi

theorem parent?_build_of_mem_children {tree : Node} {parent child : Cursor}
    (hparent : parent ∈ (Cursor.root tree).preorder) (hchild : child ∈ parent.children) :
    (build tree).parent? child.position = some parent :=
  parent?_build_eq_some_iff.mpr ⟨hparent, List.mem_map_of_mem hchild⟩

end Estree.ParentTable
