import Estree.Node.Builders
import Estree.Proofs.Positions
import Estree.Proofs.Templates

namespace Estree

variable {α β : Type}

namespace Form

-- Whether a construct is not printed, whatever its parts are.
def isOffending : Form α → Bool
  | .unmodeled _ => true
  | .ifStatement _ _ alternate => alternate.isSome
  | .property _ _ kind method => method || kind != .init
  | _ => false

-- The parts that are left out of the text: what `printed` drops.
def dropped : Form α → List α
  | .catchClause none guard _ => guard.toList
  | .moduleDeclaration _ (some _) body => body.toList
  | _ => []

theorem isOffending_map (f : α → β) (form : Form α) :
    (form.map f).isOffending = form.isOffending := by
  cases form
  case ifStatement test consequent alternate => cases alternate <;> rfl
  all_goals rfl

theorem kindName_map (f : α → β) (form : Form α) : (form.map f).kindName = form.kindName := by
  cases form <;> rfl

theorem template_of_isOffending (inLoopHead : Bool) {form : Form α} (h : form.isOffending = true) :
    form.template inLoopHead = .error ⟨form.kindName⟩ := by
  cases form
  case ifStatement test consequent alternate =>
    cases alternate with
    | none => simp [isOffending] at h
    | some alternate => rfl
  case property key value kind method =>
    cases kind <;> cases method <;> simp_all [isOffending, template]
  case unmodeled kind => rfl
  all_goals simp [isOffending] at h

theorem isOffending_of_template_error {inLoopHead : Bool} {form : Form α} {error : Unsupported}
    (h : form.template inLoopHead = .error error) : form.isOffending = true := by
  unfold template at h
  split at h <;> cases h
  · rfl
  · rename_i key value kind method hplain
    cases kind <;> cases method <;> simp_all [isOffending]
  · rfl

theorem exists_template (inLoopHead : Bool) {form : Form α} (h : form.isOffending = false) :
    ∃ template, form.template inLoopHead = .ok template := by
  cases ht : form.template inLoopHead with
  | ok template => exact ⟨template, rfl⟩
  | error error => simp [isOffending_of_template_error ht] at h

-- Every part is printed or dropped, and none is both.
theorem children_perm (form : Form α) : form.children.Perm (form.printed ++ form.dropped) := by
  cases form
  case catchClause param guard body =>
    cases param <;> simp [children, printed, dropped]
  case moduleDeclaration id source body =>
    cases source <;> simp [children, printed, dropped]
  all_goals simp [printed, dropped]

end Form

-- Whether a node is not printed, whatever stands below it.
def Node.isOffending (node : Node) : Bool :=
  node.form.isOffending

namespace Cursor

-- The cursor itself and all below it that are printed, every node before its parts.
def visited (cursor : Cursor) : List Cursor :=
  cursor :: cursor.form.printed.attach.flatMap fun ⟨child, _⟩ => child.visited
termination_by sizeOf cursor.node
decreasing_by exact sizeOf_lt_of_mem_children (Form.mem_children_of_mem_printed ‹_›)

-- Whether a node stands inside a part that is dropped at or below a cursor.
def Omits (cursor other : Cursor) : Prop :=
  ∃ holder ∈ cursor.preorder, ∃ part ∈ holder.form.dropped, other ∈ part.preorder

theorem isOffending_form (cursor : Cursor) :
    cursor.form.isOffending = cursor.node.isOffending := by
  rw [Node.isOffending, ← map_node_form, Form.isOffending_map]

theorem kindName_form (cursor : Cursor) : cursor.form.kindName = cursor.node.kindName := by
  rw [Node.kindName, ← map_node_form, Form.kindName_map]

theorem visited_eq (cursor : Cursor) :
    cursor.visited = cursor :: cursor.form.printed.flatMap visited := by
  rw [visited]
  congr 1
  simp [List.flatMap_def]

theorem mem_visited {cursor other : Cursor} :
    other ∈ cursor.visited ↔
      other = cursor ∨ ∃ child ∈ cursor.form.printed, other ∈ child.visited := by
  rw [visited_eq]
  simp

theorem nodup_children (cursor : Cursor) : cursor.children.Nodup := by
  rw [List.Nodup, List.pairwise_iff_getElem]
  intro i j hi hj hij heq
  simp only [children_eq_mapIdx, List.getElem_mapIdx, Cursor.mk.injEq, List.cons.injEq] at heq
  omega

theorem mem_children_iff {cursor child : Cursor} :
    child ∈ cursor.children ↔ child ∈ cursor.form.printed ∨ child ∈ cursor.form.dropped := by
  rw [children, cursor.form.children_perm.mem_iff, List.mem_append]

theorem not_mem_dropped {cursor child : Cursor} (h : child ∈ cursor.form.printed) :
    child ∉ cursor.form.dropped := by
  have hnodup := cursor.form.children_perm.nodup_iff.mp cursor.nodup_children
  intro hdropped
  exact (List.nodup_append.mp hnodup).2.2 child h child hdropped rfl

theorem not_omits_self (cursor : Cursor) : ¬ cursor.Omits cursor := by
  rintro ⟨holder, hholder, part, hpart, hcursor⟩
  have hchild := mem_children_iff.mpr (.inr hpart)
  have hlt := length_lt_of_mem_preorder_child hchild hcursor
  have hle := (position_suffix_of_mem_preorder hholder).length_le
  omega

-- What a cursor omits below a child is the child itself or what the child omits.
theorem omits_iff_of_mem_children {cursor child other : Cursor} (hchild : child ∈ cursor.children)
    (hother : other ∈ child.preorder) :
    cursor.Omits other ↔ child ∈ cursor.form.dropped ∨ child.Omits other := by
  constructor
  · rintro ⟨holder, hholder, part, hpart, hin⟩
    have hpartChild := mem_children_iff.mpr (.inr hpart)
    rcases mem_preorder.mp hholder with rfl | ⟨next, hnext, hholder⟩
    · obtain rfl := eq_of_mem_preorder_of_mem_preorder hpartChild hchild hin hother
      exact .inl hpart
    · have hbelow := mem_preorder_trans hholder
        (mem_preorder_trans (mem_preorder_of_mem_children hpartChild) hin)
      obtain rfl := eq_of_mem_preorder_of_mem_preorder hnext hchild hbelow hother
      exact .inr ⟨holder, hholder, part, hpart, hin⟩
  · rintro (hdropped | ⟨holder, hholder, part, hpart, hin⟩)
    · exact ⟨cursor, self_mem_preorder cursor, child, hdropped, hother⟩
    · have hbelow := mem_preorder_trans (mem_preorder_of_mem_children hchild) hholder
      exact ⟨holder, hbelow, part, hpart, hin⟩

-- All nodes are visited but those that are omitted.
theorem mem_visited_iff {cursor other : Cursor} :
    other ∈ cursor.visited ↔ other ∈ cursor.preorder ∧ ¬ cursor.Omits other := by
  induction cursor using induction with
  | step cursor ih =>
    constructor
    · intro h
      rcases mem_visited.mp h with rfl | ⟨child, hprinted, hother⟩
      · exact ⟨self_mem_preorder other, not_omits_self other⟩
      · have hchild := mem_children_iff.mpr (.inl hprinted)
        obtain ⟨hbelow, homits⟩ := (ih child hchild).mp hother
        refine ⟨mem_preorder.mpr (.inr ⟨child, hchild, hbelow⟩), ?_⟩
        rw [omits_iff_of_mem_children hchild hbelow]
        rintro (hdropped | hchildOmits)
        · exact not_mem_dropped hprinted hdropped
        · exact homits hchildOmits
    · rintro ⟨hbelow, homits⟩
      rcases mem_preorder.mp hbelow with rfl | ⟨child, hchild, hother⟩
      · exact mem_visited.mpr (.inl rfl)
      · rw [omits_iff_of_mem_children hchild hother, not_or] at homits
        have hprinted := (mem_children_iff.mp hchild).resolve_right homits.1
        exact mem_visited.mpr (.inr ⟨child, hprinted, (ih child hchild).mpr ⟨hother, homits.2⟩⟩)

end Cursor

-- What comes out where the first node to refuse is known: its kind if there is one, and a result
-- if there is none.
def Blames (offender : Option Cursor) (outcome : Except Unsupported β) : Prop :=
  match offender with
  | none => ∃ value, outcome = .ok value
  | some cursor => outcome = .error ⟨cursor.node.kindName⟩

namespace Blames

-- Of several visits in a row the first failure counts.
theorem mapM {first : Cursor → Option Cursor} {visit : Cursor → Except Unsupported β}
    {cursors : List Cursor} (h : ∀ cursor ∈ cursors, Blames (first cursor) (visit cursor)) :
    Blames (cursors.findSome? first) (cursors.mapM visit) := by
  induction cursors with
  | nil => exact ⟨[], rfl⟩
  | cons cursor cursors ih =>
    have hcursor := h cursor (by simp)
    have hrest := ih fun other hother => h other (by simp [hother])
    rw [List.findSome?_cons, List.mapM_cons]
    cases hfirst : first cursor with
    | some offender =>
      rw [hfirst] at hcursor
      change visit cursor = _ at hcursor
      rw [hcursor]
      rfl
    | none =>
      rw [hfirst] at hcursor
      obtain ⟨value, hvalue⟩ := hcursor
      rw [hvalue]
      cases hfound : cursors.findSome? first with
      | some offender =>
        rw [hfound] at hrest
        change cursors.mapM visit = _ at hrest
        rw [hrest]
        rfl
      | none =>
        rw [hfound] at hrest
        obtain ⟨values, hvalues⟩ := hrest
        rw [hvalues]
        exact ⟨value :: values, rfl⟩

theorem bind_pure {offender : Option Cursor} {outcome : Except Unsupported α} (f : α → β)
    (h : Blames offender outcome) : Blames offender (outcome >>= fun value => pure (f value)) := by
  cases offender with
  | none =>
    obtain ⟨value, rfl⟩ := h
    exact ⟨f value, rfl⟩
  | some cursor =>
    change outcome = _ at h
    rw [h]
    rfl

end Blames

namespace Printer

-- A printer goes through the visited nodes in their order and stops at the first that it refuses.
-- It does not matter whom it takes for the parents of the nodes.
theorem blames_print (printer : Printer) (cursor : Cursor) :
    Blames (cursor.visited.find? fun other => other.node.isOffending) (printer.print cursor) := by
  induction cursor using Cursor.induction with
  | step cursor ih =>
    rw [print_eq, Cursor.visited_eq, List.find?_cons, List.find?_flatMap]
    cases hoffending : cursor.node.isOffending with
    | true =>
      rw [← Cursor.isOffending_form] at hoffending
      rw [template, Form.template_of_isOffending _ hoffending, Cursor.kindName_form]
      rfl
    | false =>
      rw [← Cursor.isOffending_form] at hoffending
      obtain ⟨found, hfound⟩ := Form.exists_template (printer.inLoopHead cursor) hoffending
      rw [template, hfound]
      change Blames _ (found.parts.mapM printer.print >>= _)
      rw [Form.parts_template hfound]
      exact Blames.bind_pure _ (Blames.mapM fun child hchild =>
        ih child (Form.mem_children_of_mem_printed hchild))

end Printer

-- Printing succeeds if no visited node is offending, and names the first one that is otherwise.
theorem print_outcome (tree : Node) (options : PrintOptions) :
    match (Cursor.root tree).visited.find? fun cursor => cursor.node.isOffending with
    | none => ∃ text, tree.print options = .ok text
    | some cursor => tree.print options = .error ⟨cursor.node.kindName⟩ :=
  Printer.blames_print ⟨.ofTable (.build tree), options⟩ (.root tree)

-- An offending node makes printing fail unless it stands in the guard of a `catch` clause without a
-- parameter or in the body of a module that names its source: these are dropped unseen.
theorem print_fails_iff (tree : Node) (options : PrintOptions) :
    (∃ error, tree.print options = .error error) ↔
      ∃ cursor ∈ (Cursor.root tree).preorder,
        cursor.node.isOffending = true ∧ ¬ (Cursor.root tree).Omits cursor := by
  have houtcome := Printer.blames_print ⟨.ofTable (.build tree), options⟩ (.root tree)
  constructor
  · rintro ⟨error, herror⟩
    cases hfirst : (Cursor.root tree).visited.find? fun cursor => cursor.node.isOffending with
    | none =>
      rw [hfirst] at houtcome
      obtain ⟨text, htext⟩ := houtcome
      rw [Node.print, htext] at herror
      simp at herror
    | some cursor =>
      have hvisited := Cursor.mem_visited_iff.mp (List.mem_of_find?_eq_some hfirst)
      have hoffending := List.find?_some (p := fun other : Cursor => other.node.isOffending) hfirst
      exact ⟨cursor, hvisited.1, hoffending, hvisited.2⟩
  · rintro ⟨cursor, hbelow, hoffending, homits⟩
    have hvisited := Cursor.mem_visited_iff.mpr ⟨hbelow, homits⟩
    have hsome : ((Cursor.root tree).visited.find? fun other => other.node.isOffending).isSome :=
      List.find?_isSome.mpr ⟨cursor, hvisited, hoffending⟩
    obtain ⟨first, hfirst⟩ := Option.isSome_iff_exists.mp hsome
    rw [hfirst] at houtcome
    exact ⟨_, houtcome⟩

-- A `catch` clause without a parameter whose guard cannot be printed.
def guardedCatch : Node :=
  ⟨.catchClause none (some (.unmodeled "ObjectExpression")) (.block [])⟩

def guardedTry : Node :=
  ⟨.tryStatement (.block []) (some guardedCatch) none⟩

-- The guard is offending, and the text comes out without it.
theorem print_guardedTry :
    (⟨[0, 1], .unmodeled "ObjectExpression"⟩ ∈ (Cursor.root guardedTry).preorder ∧
      (Node.unmodeled "ObjectExpression").isOffending = true) ∧
    guardedTry.print {} = .ok "try \x7b\x7d catch \x7b\x7d" := by
  have hclause : (⟨[1], guardedCatch⟩ : Cursor) ∈ (Cursor.root guardedTry).children :=
    List.mem_of_getElem? (i := 1) rfl
  have hguard : (⟨[0, 1], .unmodeled "ObjectExpression"⟩ : Cursor) ∈
      Cursor.children ⟨[1], guardedCatch⟩ := List.mem_of_getElem? (i := 0) rfl
  refine ⟨⟨?_, rfl⟩, ?_⟩
  · exact Cursor.mem_preorder_trans (Cursor.mem_preorder_of_mem_children hclause)
      (Cursor.mem_preorder_of_mem_children hguard)
  · have hblock (printer : Printer) (position : Position) :
        printer.print ⟨position, .block []⟩ = .ok "\x7b\x7d" := by
      rw [Printer.print_eq]
      rfl
    have hcatch (printer : Printer) :
        printer.print ⟨[1], guardedCatch⟩ = .ok "catch \x7b\x7d" := by
      rw [Printer.print_eq]
      change [(⟨[1, 1], .block []⟩ : Cursor)].mapM printer.print >>= _ = _
      rw [List.mapM_cons, hblock]
      rfl
    rw [Node.print, Printer.print_eq]
    change [(⟨[0], .block []⟩ : Cursor), ⟨[1], guardedCatch⟩].mapM (Printer.print _) >>= _ = _
    rw [List.mapM_cons, hblock, List.mapM_cons, hcatch]
    rfl

end Estree
