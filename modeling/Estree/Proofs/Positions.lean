import Estree.Cursor
import Estree.Proofs.Parts

namespace Estree.Cursor

-- What holds of a cursor whenever it holds of the cursors one step down holds of every cursor.
@[elab_as_elim]
theorem induction {motive : Cursor → Prop}
    (step : ∀ cursor, (∀ child ∈ cursor.children, motive child) → motive cursor)
    (cursor : Cursor) : motive cursor :=
  step cursor fun child _ => induction step child
termination_by sizeOf cursor.node
decreasing_by exact sizeOf_lt_of_mem_children ‹_›

@[simp] theorem map_node_form (cursor : Cursor) : cursor.form.map node = cursor.node.form := by
  simp [form]

theorem getElem?_children (cursor : Cursor) (i : Nat) :
    cursor.children[i]? = cursor.node.children[i]?.map fun child => ⟨i :: cursor.position, child⟩ := by
  simp [children_eq_mapIdx]

-- A child extends the position of its parent by its number.
theorem exists_number {cursor child : Cursor} (h : child ∈ cursor.children) :
    ∃ i, cursor.children[i]? = some child ∧ child.position = i :: cursor.position := by
  obtain ⟨i, hi⟩ := List.getElem?_of_mem h
  have hchild := hi
  rw [getElem?_children, Option.map_eq_some_iff] at hchild
  obtain ⟨node, -, rfl⟩ := hchild
  exact ⟨i, hi, rfl⟩

theorem length_position_of_mem_children {cursor child : Cursor} (h : child ∈ cursor.children) :
    child.position.length = cursor.position.length + 1 := by
  obtain ⟨i, -, hp⟩ := exists_number h
  simp [hp]

theorem position_suffix_of_mem_children {cursor child : Cursor} (h : child ∈ cursor.children) :
    cursor.position <:+ child.position := by
  obtain ⟨i, -, hp⟩ := exists_number h
  exact hp ▸ List.suffix_cons i cursor.position

-- Siblings are told apart by their positions.
theorem eq_of_mem_children {cursor a b : Cursor} (ha : a ∈ cursor.children)
    (hb : b ∈ cursor.children) (h : a.position = b.position) : a = b := by
  obtain ⟨i, hi, hpa⟩ := exists_number ha
  obtain ⟨j, hj, hpb⟩ := exists_number hb
  have hij : i = j := by
    rw [hpa, hpb] at h
    exact (List.cons.inj h).1
  rw [hij, hj] at hi
  exact (Option.some.inj hi).symm

theorem preorder_eq (cursor : Cursor) :
    cursor.preorder = cursor :: cursor.children.flatMap preorder := by
  rw [preorder]
  congr 1
  simp [List.flatMap_def]

theorem mem_preorder {cursor other : Cursor} :
    other ∈ cursor.preorder ↔
      other = cursor ∨ ∃ child ∈ cursor.children, other ∈ child.preorder := by
  rw [preorder_eq]
  simp

theorem forall_mem_preorder {cursor : Cursor} {p : Cursor → Prop} :
    (∀ other ∈ cursor.preorder, p other) ↔
      p cursor ∧ ∀ child ∈ cursor.children, ∀ other ∈ child.preorder, p other := by
  rw [preorder_eq, List.forall_mem_cons]
  constructor
  · rintro ⟨hcursor, hbelow⟩
    exact ⟨hcursor, fun child hchild other hother =>
      hbelow other (List.mem_flatMap.mpr ⟨child, hchild, hother⟩)⟩
  · rintro ⟨hcursor, hbelow⟩
    refine ⟨hcursor, ?_⟩
    intro other hother
    obtain ⟨child, hchild, hother⟩ := List.mem_flatMap.mp hother
    exact hbelow child hchild other hother

@[simp] theorem self_mem_preorder (cursor : Cursor) : cursor ∈ cursor.preorder :=
  mem_preorder.mpr (.inl rfl)

theorem mem_preorder_trans {a b c : Cursor} (hb : b ∈ a.preorder) (hc : c ∈ b.preorder) :
    c ∈ a.preorder := by
  induction a using induction with
  | step a ih =>
    rcases mem_preorder.mp hb with rfl | ⟨child, hchild, hb⟩
    · exact hc
    · exact mem_preorder.mpr (.inr ⟨child, hchild, ih child hchild hb⟩)

theorem mem_preorder_of_mem_children {cursor child : Cursor} (h : child ∈ cursor.children) :
    child ∈ cursor.preorder :=
  mem_preorder.mpr (.inr ⟨child, h, self_mem_preorder child⟩)

-- What is not at the top stands right below something.
theorem exists_parent {cursor other : Cursor} (h : other ∈ cursor.preorder) :
    other = cursor ∨ ∃ parent ∈ cursor.preorder, other ∈ parent.children := by
  induction cursor using induction with
  | step cursor ih =>
    rcases mem_preorder.mp h with rfl | ⟨child, hchild, hother⟩
    · exact .inl rfl
    · have hbelow := mem_preorder_of_mem_children hchild
      rcases ih child hchild hother with rfl | ⟨parent, hparent, hother⟩
      · exact .inr ⟨cursor, self_mem_preorder cursor, hchild⟩
      · exact .inr ⟨parent, mem_preorder_trans hbelow hparent, hother⟩

theorem position_suffix_of_mem_preorder {cursor other : Cursor} (h : other ∈ cursor.preorder) :
    cursor.position <:+ other.position := by
  induction cursor using induction with
  | step cursor ih =>
    rcases mem_preorder.mp h with rfl | ⟨child, hchild, hother⟩
    · exact List.suffix_rfl
    · exact (position_suffix_of_mem_children hchild).trans (ih child hchild hother)

-- No position lies below two siblings.
theorem eq_of_mem_children_of_suffix {cursor a b : Cursor} {position : Position}
    (ha : a ∈ cursor.children) (hb : b ∈ cursor.children) (hap : a.position <:+ position)
    (hbp : b.position <:+ position) : a = b := by
  have hlen : a.position.length = b.position.length := by
    rw [length_position_of_mem_children ha, length_position_of_mem_children hb]
  have hsuffix := List.suffix_of_suffix_length_le hap hbp (Nat.le_of_eq hlen)
  exact eq_of_mem_children ha hb (hsuffix.eq_of_length hlen)

theorem eq_of_mem_preorder_of_mem_preorder {cursor a b other : Cursor} (ha : a ∈ cursor.children)
    (hb : b ∈ cursor.children) (hoa : other ∈ a.preorder) (hob : other ∈ b.preorder) : a = b :=
  eq_of_mem_children_of_suffix ha hb (position_suffix_of_mem_preorder hoa)
    (position_suffix_of_mem_preorder hob)

theorem length_lt_of_mem_preorder_child {cursor child other : Cursor}
    (hchild : child ∈ cursor.children) (h : other ∈ child.preorder) :
    cursor.position.length < other.position.length := by
  have hle := (position_suffix_of_mem_preorder h).length_le
  rw [length_position_of_mem_children hchild] at hle
  omega

-- Within one tree a node is known by its position.
theorem eq_of_position_eq {cursor a b : Cursor} (ha : a ∈ cursor.preorder)
    (hb : b ∈ cursor.preorder) (h : a.position = b.position) : a = b := by
  induction cursor using induction with
  | step cursor ih =>
    rcases mem_preorder.mp ha with rfl | ⟨ca, hca, hac⟩
    · rcases mem_preorder.mp hb with rfl | ⟨cb, hcb, hbc⟩
      · rfl
      · have := length_lt_of_mem_preorder_child hcb hbc
        simp [h] at this
    · rcases mem_preorder.mp hb with rfl | ⟨cb, hcb, hbc⟩
      · have := length_lt_of_mem_preorder_child hca hac
        simp [h] at this
      · have hsame : ca = cb := eq_of_mem_children_of_suffix hca hcb
          (position_suffix_of_mem_preorder hac) (h ▸ position_suffix_of_mem_preorder hbc)
        subst cb
        exact ih ca hca hac hbc

end Estree.Cursor
