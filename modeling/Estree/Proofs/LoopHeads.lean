import Estree.Node.Builders
import Estree.Proofs.ParentLinks
import Estree.Proofs.Templates

namespace Estree

variable {α β : Type}

namespace Form

-- The construct with a mark on every part that says whether it stands in the head of a loop. Only
-- `init` of a `for` loop and `left` of a `for in` loop do.
def markHead : Form α → Form (Bool × α)
  | .forStatement init test update body =>
    .forStatement (init.map (true, ·)) (test.map (false, ·)) (update.map (false, ·)) (false, body)
  | .forInStatement left right body each =>
    .forInStatement (true, left) (false, right) (false, body) each
  | form => form.map (false, ·)

@[simp] theorem map_snd_markHead (form : Form α) : form.markHead.map Prod.snd = form := by
  unfold markHead
  split
  · simp [map, mapM, mapM_option_pure, Function.comp_def]
  · rfl
  · simp

-- The marks are those that the printer reads off the number of a part.
theorem children_markHead (form : Form α) :
    form.markHead.children = form.children.mapIdx fun i part => (form.isLoopHead i, part) := by
  unfold markHead
  split
  · rename_i init test update body
    cases init <;> cases test <;> cases update <;> simp [children, isLoopHead]
  · simp [children, isLoopHead]
  · rename_i hfor hforIn
    have hhead : form.isLoopHead = fun _ => false := by
      funext i
      unfold isLoopHead
      split
      · exact absurd rfl (hfor _ _ _ _)
      · exact absurd rfl (hforIn _ _ _ _)
      · rfl
    rw [children_map, hhead]
    apply List.ext_getElem <;> simp

theorem isLoopHead_map (f : α → β) (form : Form α) : (form.map f).isLoopHead = form.isLoopHead := by
  cases form
  case forStatement init test update body => cases init <;> rfl
  all_goals rfl

theorem sizeOf_lt_of_mem_parts_markHead {node child : Node} {inLoopHead head : Bool}
    {template : Template (Bool × Node)}
    (ht : node.form.markHead.template inLoopHead = .ok template)
    (hc : (head, child) ∈ template.parts) : sizeOf child < sizeOf node := by
  rw [parts_template ht] at hc
  have hmem := mem_children_of_mem_printed hc
  have hchild : child ∈ node.children := by
    rw [Node.children, ← map_snd_markHead node.form, children_map]
    exact List.mem_map_of_mem hmem
  exact Node.sizeOf_lt_of_mem_children hchild

end Form

namespace Node

-- The text of a node, given whether the node stands in the head of a loop. What stands in a head
-- is decided on the way down, so no node needs to know its parent.
def printIn (options : PrintOptions) (inLoopHead : Bool) (node : Node) :
    Except Unsupported String :=
  match _h : node.form.markHead.template inLoopHead with
  | .error e => .error e
  | .ok template => do
    let texts ← template.parts.attach.mapM fun ⟨(head, child), _⟩ => child.printIn options head
    return template.assemble options texts
termination_by sizeOf node
decreasing_by exact Form.sizeOf_lt_of_mem_parts_markHead ‹_› ‹_›

theorem printIn_eq (options : PrintOptions) (inLoopHead : Bool) (node : Node) :
    node.printIn options inLoopHead = do
      let template ← node.form.markHead.template inLoopHead
      let texts ← template.parts.mapM fun (head, child) => child.printIn options head
      return template.assemble options texts := by
  rw [printIn]
  split
  · rename_i h
    rw [h]
    rfl
  · rename_i h
    rw [h, List.mapM_subtype (g := fun part => part.2.printIn options part.1) fun _ _ => rfl,
      List.unattach_attach]
    rfl

-- A construct that heads no loop is its template filled with the texts of its parts.
theorem printIn_of_template {options : PrintOptions} {inLoopHead : Bool} {node : Node}
    (hmark : node.form.markHead = node.form.map (false, ·)) {template : Template Node}
    (htemplate : node.form.template inLoopHead = .ok template) {texts : List String}
    (htexts : template.parts.mapM (printIn options false) = .ok texts) {text : String}
    (htext : template.assemble options texts = text) :
    node.printIn options inLoopHead = .ok text := by
  rw [← htext, printIn_eq, hmark, Form.template_map, htemplate]
  simp only [Except.map, ok_bind, Template.parts_map, Template.assemble_map, List.mapM_map,
    Function.comp_def, htexts]
  rfl

theorem printIn_identifier (options : PrintOptions) (name : String) :
    (identifier name).printIn options false = .ok name :=
  printIn_of_template rfl rfl rfl (by simp [Template.assemble])

end Node

namespace Cursor

-- Whether a node of a tree is `init` of a `for` loop or `left` of a `for in` loop. The part of the
-- loop is compared with the node as a cursor, so one that only looks like it does not count.
def InLoopHead (tree : Node) (cursor : Cursor) : Prop :=
  ∃ parent ∈ (root tree).preorder,
    (∃ test update body, parent.form = .forStatement (some cursor) test update body) ∨
      (∃ right body each, parent.form = .forInStatement cursor right body each)

end Cursor

namespace Printer

variable {tree : Node} {options : PrintOptions}

-- The printer of a whole tree: it knows the parents of all nodes.
abbrev ofTree (tree : Node) (options : PrintOptions) : Printer :=
  ⟨.ofTable (.build tree), options⟩

theorem inLoopHead_root (tree : Node) (options : PrintOptions) :
    (ofTree tree options).inLoopHead (.root tree) = false := by
  simp [inLoopHead, ParentLookup.ofTable, Cursor.root, ParentTable.parent?_build_nil]

-- What the table says about a child is what its parent says about the number of the child.
theorem inLoopHead_child {parent child : Cursor} {i : Nat}
    (hparent : parent ∈ (Cursor.root tree).preorder) (hi : parent.children[i]? = some child) :
    (ofTree tree options).inLoopHead child = parent.node.form.isLoopHead i := by
  have hlink := ParentTable.parent?_build_of_mem_children hparent (List.mem_of_getElem? hi)
  rw [Cursor.getElem?_children, Option.map_eq_some_iff] at hi
  obtain ⟨node, -, rfl⟩ := hi
  simp only [inLoopHead, ParentLookup.ofTable, hlink]
  simp [Parent.hasInHead]

-- The marks that are handed down are the answers of the table.
theorem map_form_eq_markHead (options : PrintOptions) {cursor : Cursor}
    (h : cursor ∈ (Cursor.root tree).preorder) :
    (cursor.form.map fun child => ((ofTree tree options).inLoopHead child, child.node)) =
      cursor.node.form.markHead := by
  apply Form.eq_of_map_eq Prod.snd
  · simp
  · rw [Form.children_map, Form.children_markHead]
    apply List.ext_getElem?
    intro i
    rw [List.getElem?_map, List.getElem?_mapIdx]
    change cursor.children[i]?.map _ = cursor.node.children[i]?.map _
    cases hi : cursor.children[i]? with
    | none =>
      rw [Cursor.getElem?_children, Option.map_eq_none_iff] at hi
      rw [hi]
      rfl
    | some child =>
      have hnode := hi
      rw [Cursor.getElem?_children, Option.map_eq_some_iff] at hnode
      obtain ⟨node, hnode, rfl⟩ := hnode
      rw [hnode, Option.map_some, Option.map_some, inLoopHead_child h hi]

-- Both printers find the same template at a node and fill it with the same texts.
theorem print_eq_printIn_inLoopHead {cursor : Cursor}
    (h : cursor ∈ (Cursor.root tree).preorder) :
    (ofTree tree options).print cursor =
      cursor.node.printIn options ((ofTree tree options).inLoopHead cursor) := by
  induction cursor using Cursor.induction with
  | step cursor ih =>
    rw [print_eq, Node.printIn_eq, ← map_form_eq_markHead options h, Form.template_map]
    change _ = ((ofTree tree options).template cursor).map _ >>= _
    cases ht : (ofTree tree options).template cursor with
    | error e => rfl
    | ok template =>
      have htexts : template.parts.mapM (ofTree tree options).print =
          template.parts.mapM fun child =>
            child.node.printIn options ((ofTree tree options).inLoopHead child) := by
        apply Form.mapM_list_congr
        intro child hchild
        rw [Form.parts_template ht] at hchild
        have hmem := Form.mem_children_of_mem_printed hchild
        exact ih child hmem (Cursor.mem_preorder_trans h (Cursor.mem_preorder_of_mem_children hmem))
      simp only [Except.map, bind, Except.bind, htexts, Template.parts_map, Template.assemble_map,
        List.mapM_map, Function.comp_def]

theorem print_root (tree : Node) (options : PrintOptions) :
    tree.print options = tree.printIn options false := by
  have hroot : (ofTree tree options).print (.root tree) = _ :=
    print_eq_printIn_inLoopHead (Cursor.self_mem_preorder (.root tree))
  rwa [inLoopHead_root] at hroot

theorem inLoopHead_eq_true_iff {cursor : Cursor} (h : cursor ∈ (Cursor.root tree).preorder) :
    (ofTree tree options).inLoopHead cursor = true ↔ cursor.InLoopHead tree := by
  constructor
  · intro hhead
    rcases Cursor.exists_parent h with rfl | ⟨parent, hparent, hchild⟩
    · rw [inLoopHead_root] at hhead
      simp at hhead
    · obtain ⟨i, hi, -⟩ := Cursor.exists_number hchild
      rw [inLoopHead_child hparent hi, ← Cursor.map_node_form, Form.isLoopHead_map] at hhead
      refine ⟨parent, hparent, ?_⟩
      rw [Cursor.children] at hi
      generalize parent.form = form at hi hhead ⊢
      unfold Form.isLoopHead at hhead
      split at hhead
      · obtain rfl : i = 0 := by simpa using hhead
        simp_all [Form.children]
      · obtain rfl : i = 0 := by simpa using hhead
        simp_all [Form.children]
      · simp at hhead
  · rintro ⟨parent, hparent, ⟨test, update, body, hform⟩ | ⟨right, body, each, hform⟩⟩
    · have hi : parent.children[0]? = some cursor := by
        simp [Cursor.children, hform, Form.children]
      rw [inLoopHead_child hparent hi, ← Cursor.map_node_form, Form.isLoopHead_map, hform]
      rfl
    · have hi : parent.children[0]? = some cursor := by
        simp [Cursor.children, hform, Form.children]
      rw [inLoopHead_child hparent hi, ← Cursor.map_node_form, Form.isLoopHead_map, hform]
      rfl

end Printer

-- Looking up parents in the table of a tree and handing down the marks of heads come to the same:
-- at every node of the tree, and so for the tree as a whole.
theorem print_eq_printIn (tree : Node) (options : PrintOptions) :
    (∀ cursor ∈ (Cursor.root tree).preorder, ∀ inLoopHead : Bool,
      (inLoopHead = true ↔ cursor.InLoopHead tree) →
        Printer.print ⟨.ofTable (.build tree), options⟩ cursor =
          cursor.node.printIn options inLoopHead) ∧
      tree.print options = tree.printIn options false := by
  constructor
  · intro cursor h inLoopHead hhead
    have hflag : (Printer.ofTree tree options).inLoopHead cursor = inLoopHead := by
      rw [Bool.eq_iff_iff, Printer.inLoopHead_eq_true_iff h, hhead]
    rw [Printer.print_eq_printIn_inLoopHead h, hflag]
  · have hroot : (Printer.ofTree tree options).print (.root tree) = _ :=
      Printer.print_eq_printIn_inLoopHead (Cursor.self_mem_preorder (.root tree))
    rwa [Printer.inLoopHead_root] at hroot

-- `var x`, and a loop that has it in its head and again for its body.
def twin : Node :=
  .declaration .var [.declarator "x" none]

def twinLoop : Node :=
  ⟨.forStatement (some twin) none none twin⟩

theorem printIn_twin (inLoopHead : Bool) :
    twin.printIn {} inLoopHead = .ok (if inLoopHead then "var x" else "var x;") := by
  have hid : (Node.identifier "x").printIn {} false = .ok "x" := by
    rw [Node.printIn_eq]
    rfl
  have hdeclarator : (Node.declarator "x" none).printIn {} false = .ok "x" := by
    rw [Node.printIn_eq]
    change ([(false, Node.identifier "x")].mapM fun (head, child) => child.printIn {} head) >>= _ = _
    simp only [List.mapM_cons, hid]
    rfl
  rw [Node.printIn_eq]
  change ([(false, Node.declarator "x" none)].mapM fun (head, child) => child.printIn {} head) >>=
    _ = _
  simp only [List.mapM_cons, hdeclarator]
  cases inLoopHead <;> rfl

-- The two declarations look alike, and only the one in the head goes without a semicolon.
theorem print_eq_printIn_twinLoop :
    (⟨[0], twin⟩ ∈ (Cursor.root twinLoop).preorder ∧ Cursor.InLoopHead twinLoop ⟨[0], twin⟩ ∧
      Printer.print ⟨.ofTable (.build twinLoop), {}⟩ ⟨[0], twin⟩ = .ok "var x") ∧
    (⟨[1], twin⟩ ∈ (Cursor.root twinLoop).preorder ∧ ¬ Cursor.InLoopHead twinLoop ⟨[1], twin⟩ ∧
      Printer.print ⟨.ofTable (.build twinLoop), {}⟩ ⟨[1], twin⟩ = .ok "var x;") := by
  have hroot := Cursor.self_mem_preorder (.root twinLoop)
  have hchildren : (Cursor.root twinLoop).children = [⟨[0], twin⟩, ⟨[1], twin⟩] := rfl
  have hmem {cursor : Cursor} (h : cursor ∈ (Cursor.root twinLoop).children) :
      cursor ∈ (Cursor.root twinLoop).preorder := Cursor.mem_preorder_of_mem_children h
  have hbody : (⟨[1], twin⟩ : Cursor) ∈ (Cursor.root twinLoop).preorder :=
    hmem (by simp [hchildren])
  have hhead : (⟨[0], twin⟩ : Cursor) ∈ (Cursor.root twinLoop).preorder :=
    hmem (by simp [hchildren])
  have hin : Cursor.InLoopHead twinLoop ⟨[0], twin⟩ :=
    ⟨.root twinLoop, hroot, .inl ⟨none, none, ⟨[1], twin⟩, rfl⟩⟩
  have hout : ¬ Cursor.InLoopHead twinLoop ⟨[1], twin⟩ := by
    have hone : (Cursor.root twinLoop).children[1]? = some ⟨[1], twin⟩ := by rw [hchildren]; rfl
    have hflag : (Printer.ofTree twinLoop {}).inLoopHead ⟨[1], twin⟩ = false :=
      Printer.inLoopHead_child hroot hone
    rw [← Printer.inLoopHead_eq_true_iff hbody, hflag]
    decide
  have hprint := (print_eq_printIn twinLoop {}).1
  refine ⟨⟨hhead, hin, ?_⟩, ⟨hbody, hout, ?_⟩⟩
  · rw [hprint _ hhead true (by simp [hin]), printIn_twin]
    rfl
  · rw [hprint _ hbody false (by simp [hout]), printIn_twin]
    rfl

end Estree
