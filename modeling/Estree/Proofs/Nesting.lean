import Estree.Node.Builders
import Estree.Proofs.Indentation
import Estree.Proofs.LoopHeads
import Estree.Proofs.Refusals
import Mathlib

namespace Estree

variable {α β : Type}

namespace Text

-- The text with `levels` units at the start of every line but the first.
def hanging (unit : String) (levels : Nat) (text : String) : String :=
  String.ofList (hang (List.replicate levels unit.toList).flatten text.toList)

-- Whether some texts stand in a text one after the other, with anything around them.
def OccurInOrder : List String → String → Prop
  | [], _ => True
  | text :: texts, whole =>
    ∃ before rest, whole = before ++ text ++ rest ∧ OccurInOrder texts rest

section Hanging

variable {unit : String}

@[simp] theorem hanging_zero (text : String) : hanging unit 0 text = text := by
  simp [hanging, hang_nil_padding]

theorem hanging_append (levels : Nat) (a b : String) :
    hanging unit levels (a ++ b) = hanging unit levels a ++ hanging unit levels b := by
  simp [hanging]

-- Levels add up.
theorem hanging_hanging (h : '\n' ∉ unit.toList) (outer inner : Nat) (text : String) :
    hanging unit outer (hanging unit inner text) = hanging unit (outer + inner) text := by
  have hinner : '\n' ∉ (List.replicate inner unit.toList).flatten := by
    simp [List.mem_flatten, h]
  simp [hanging, hang_hang hinner, ← List.flatten_append]

theorem indentWith_eq_hanging (text : String) :
    indentWith unit text = unit ++ hanging unit 1 text := by
  apply String.toList_inj.mp
  simp [toList_indentWith_eq_hang, hanging]

end Hanging

namespace OccurInOrder

theorem append_left {texts : List String} {whole : String} (h : OccurInOrder texts whole)
    (before : String) : OccurInOrder texts (before ++ whole) := by
  cases texts with
  | nil => trivial
  | cons text texts =>
    obtain ⟨front, rest, rfl, hrest⟩ := h
    exact ⟨before ++ front, rest, by simp [String.append_assoc], hrest⟩

theorem append {texts others : List String} {whole other : String} (h : OccurInOrder texts whole)
    (hother : OccurInOrder others other) : OccurInOrder (texts ++ others) (whole ++ other) := by
  induction texts generalizing whole with
  | nil => exact hother.append_left whole
  | cons text texts ih =>
    obtain ⟨before, rest, rfl, hrest⟩ := h
    exact ⟨before, rest ++ other, by simp [String.append_assoc], ih hrest⟩

theorem append_right {texts : List String} {whole : String} (h : OccurInOrder texts whole)
    (after : String) : OccurInOrder texts (whole ++ after) := by
  have hnone : OccurInOrder [] after := trivial
  simpa using h.append hnone

theorem intercalate (separator : String) (texts : List String) :
    OccurInOrder texts (separator.intercalate texts) := by
  induction texts with
  | nil => trivial
  | cons text texts ih =>
    cases texts with
    | nil => exact ⟨"", "", by simp, trivial⟩
    | cons second texts =>
      rw [String.intercalate_cons_cons]
      exact ⟨"", separator ++ separator.intercalate (second :: texts),
        by simp [String.append_assoc], ih.append_left separator⟩

theorem hanging {texts : List String} {whole : String} (h : OccurInOrder texts whole)
    (unit : String) (levels : Nat) :
    OccurInOrder (texts.map (Text.hanging unit levels)) (Text.hanging unit levels whole) := by
  induction texts generalizing whole with
  | nil => trivial
  | cons text texts ih =>
    obtain ⟨before, rest, rfl, hrest⟩ := h
    exact ⟨Text.hanging unit levels before, Text.hanging unit levels rest,
      by simp [hanging_append], ih hrest⟩

theorem exists_of_mem {texts : List String} {whole text : String} (h : OccurInOrder texts whole)
    (hmem : text ∈ texts) : ∃ before after, whole = before ++ text ++ after := by
  induction texts generalizing whole with
  | nil => simp at hmem
  | cons first texts ih =>
    obtain ⟨before, rest, rfl, hrest⟩ := h
    rcases List.mem_cons.mp hmem with rfl | hmem
    · exact ⟨before, rest, rfl⟩
    · obtain ⟨gap, after, rfl⟩ := ih hrest hmem
      exact ⟨before ++ first ++ gap, after, by simp [String.append_assoc]⟩

end OccurInOrder

end Text

open Text

namespace Arrangement

-- How many levels deeper the parts stand.
def level : Arrangement → Nat
  | .nested => 1
  | .separatedBy _ | .declarators | .loopBody => 0

-- The parts are all there in their order, moved as far as their level says.
theorem occurInOrder_write (options : PrintOptions) (arrangement : Arrangement)
    (texts : List String) :
    OccurInOrder (texts.map (hanging options.indentUnit arrangement.level))
      (arrangement.write options texts) := by
  have hplain : texts.map (hanging options.indentUnit 0) = texts := by
    rw [funext hanging_zero]
    exact List.map_id' texts
  cases arrangement with
  | separatedBy separator =>
    rw [level, hplain]
    exact .intercalate separator texts
  | nested =>
    rw [write, indentWith_eq_hanging]
    exact (((OccurInOrder.intercalate "\n" texts).hanging _ 1).append_left _).append_left _
  | declarators =>
    rw [level, hplain]
    exact .intercalate _ texts
  | loopBody =>
    rw [level, hplain, write, join_eq_intercalate]
    exact (OccurInOrder.intercalate "" texts).append_right _

end Arrangement

namespace Template

-- Whether every part of a template carries the number of levels that it stands deeper.
def IsLeveled (template : Template (Nat × α)) : Prop :=
  ∀ arrangement parts, .parts arrangement parts ∈ template →
    ∀ part ∈ parts, part.1 = arrangement.level

theorem IsLeveled.append {first second : Template (Nat × α)} (hfirst : first.IsLeveled)
    (hsecond : second.IsLeveled) : IsLeveled (first ++ second) := by
  intro arrangement parts hmem
  rcases List.mem_append.mp hmem with hmem | hmem
  · exact hfirst arrangement parts hmem
  · exact hsecond arrangement parts hmem

theorem zipWith_hanging_of_level {unit : String} {level : Nat} {parts : List (Nat × α)}
    (h : ∀ part ∈ parts, part.1 = level) {texts : List String}
    (hlength : texts.length = parts.length) :
    parts.zipWith (fun part text => hanging unit part.1 text) texts =
      texts.map (hanging unit level) := by
  apply List.ext_getElem
  · simp [hlength]
  · intro i hparts htexts
    simp only [List.length_zipWith, Nat.lt_min] at hparts
    simp [h parts[i] (List.getElem_mem hparts.1)]

theorem occurInOrder_assemble (options : PrintOptions) {template : Template (Nat × α)}
    (h : template.IsLeveled) {texts : List String}
    (hlength : texts.length = template.parts.length) :
    OccurInOrder
      (template.parts.zipWith (fun part text => hanging options.indentUnit part.1 text) texts)
      (template.assemble options texts) := by
  induction template generalizing texts with
  | nil => trivial
  | cons piece template ih =>
    have hrest : IsLeveled template := fun arrangement parts hmem =>
      h arrangement parts (List.mem_cons_of_mem piece hmem)
    cases piece with
    | text fixed => exact (ih hrest hlength).append_left fixed
    | parts arrangement children =>
      rw [parts_cons_parts, List.length_append] at hlength
      have hlevel : ∀ part ∈ children, part.1 = arrangement.level :=
        h arrangement children List.mem_cons_self
      have htake : (texts.take children.length).length = children.length := by
        simp; omega
      have hdrop : (texts.drop children.length).length = (parts template).length := by
        simp; omega
      rw [parts_cons_parts, assemble, ← List.take_append_drop children.length texts,
        List.zipWith_append htake.symm, zipWith_hanging_of_level hlevel htake,
        List.take_append_drop]
      exact (arrangement.occurInOrder_write options _).append (ih hrest hdrop)

end Template

namespace Form

-- The construct with the number of levels that each part stands deeper: one for the statements of a
-- block, the cases of a `switch` and the statements of a case that has several of them.
def markLevel : Form α → Form (Nat × α)
  | .blockStatement body => .blockStatement (body.map (1, ·))
  | .switchStatement discriminant cases =>
    .switchStatement (0, discriminant) (cases.map (1, ·))
  | .switchCase test consequent =>
    .switchCase (test.map (0, ·)) (consequent.map (if 2 ≤ consequent.length then 1 else 0, ·))
  | form => form.map (0, ·)

@[simp] theorem map_snd_markLevel (form : Form α) : form.markLevel.map Prod.snd = form := by
  unfold markLevel
  split
  · simp [map, mapM, Function.comp_def]
  · simp [map, mapM, Function.comp_def]
  · simp [map, mapM, mapM_option_pure, Function.comp_def]
  · simp

theorem printed_map (f : α → β) (form : Form α) : (form.map f).printed = form.printed.map f := by
  have hall {form : Form α} (hmap : (form.map f).printed = (form.map f).children)
      (h : form.printed = form.children) : (form.map f).printed = form.printed.map f := by
    rw [hmap, h, children_map]
  cases form
  case catchClause param guard body =>
    cases param with
    | none => rfl
    | some param => exact hall rfl rfl
  case moduleDeclaration id source body =>
    cases source with
    | none => exact hall rfl rfl
    | some source => rfl
  all_goals exact hall rfl rfl

theorem map_snd_printed_markLevel (form : Form α) :
    form.markLevel.printed.map Prod.snd = form.printed := by
  rw [← printed_map, map_snd_markLevel]

section Nested

variable {parts : List α}

@[simp] theorem nested_notMem_optional (before : String) (child : Option α) :
    .parts .nested parts ∉ optional before child := by
  cases child <;> simp [optional, Piece.part]

@[simp] theorem nested_notMem_arrowParams (params : List α) :
    .parts .nested parts ∉ arrowParams params := by
  unfold arrowParams
  split <;> simp [Piece.part, Piece.list]

@[simp] theorem nested_notMem_function (id : Option α) (params : List α) (body : α)
    (generator async : Bool) :
    .parts .nested parts ∉ function id params body generator async := by
  simp [function, Piece.part, Piece.list]

@[simp] theorem nested_mem_braces {body : List α} :
    .parts .nested parts ∈ braces body ↔ parts = body ∧ body ≠ [] := by
  unfold braces
  split <;> simp_all

@[simp] theorem nested_mem_caseBody {statements : List α} :
    .parts .nested parts ∈ caseBody statements ↔ parts = statements ∧ 2 ≤ statements.length := by
  match statements with
  | [] => simp [caseBody]
  | [only] => simp [caseBody, Piece.part]
  | first :: second :: rest => simp [caseBody]

-- Parts stand on lines of their own in blocks, in `switch` statements and in cases only.
theorem eq_of_nested_mem_template {inLoopHead : Bool} {form : Form α} {template : Template α}
    (h : form.template inLoopHead = .ok template) (hmem : .parts .nested parts ∈ template) :
    form = .blockStatement parts ∨ (∃ discriminant, form = .switchStatement discriminant parts) ∨
      ∃ test, form = .switchCase test parts := by
  unfold Form.template at h
  split at h <;> cases h <;> simp [Piece.part, Piece.list] at hmem
  · exact .inl (by rw [hmem.1])
  · rename_i discriminant cases
    exact .inr (.inl ⟨discriminant, by rw [hmem.1]⟩)
  · rename_i test consequent
    rcases hmem with hlabel | hbody
    · cases test <;> simp at hlabel
    · exact .inr (.inr ⟨test, by rw [hbody.1]⟩)

end Nested

theorem isLeveled_braces (body : List α) : (braces (body.map (1, ·))).IsLeveled := by
  intro arrangement parts hmem part hpart
  match body with
  | [] => simp [braces] at hmem
  | first :: rest =>
    obtain ⟨rfl, rfl⟩ : arrangement = .nested ∧ parts = (first :: rest).map (1, ·) := by
      simpa [braces] using hmem
    obtain ⟨statement, -, rfl⟩ := List.mem_map.mp hpart
    rfl

theorem isLeveled_caseBody (statements : List α) :
    (caseBody (statements.map (if 2 ≤ statements.length then 1 else 0, ·))).IsLeveled := by
  intro arrangement parts hmem part hpart
  match statements with
  | [] => simp [caseBody] at hmem
  | [only] =>
    obtain ⟨rfl, rfl⟩ : arrangement = .separatedBy "" ∧ parts = [(0, only)] := by
      simpa [caseBody, Piece.part] using hmem
    rw [List.mem_singleton.mp hpart]
    rfl
  | first :: second :: rest =>
    obtain ⟨rfl, rfl⟩ : arrangement = .nested ∧ parts = (first :: second :: rest).map (1, ·) := by
      simpa [caseBody] using hmem
    obtain ⟨statement, -, rfl⟩ := List.mem_map.mp hpart
    rfl

-- The marks of the parts say where the template puts them.
theorem isLeveled_template {inLoopHead : Bool} {form : Form α} {template : Template (Nat × α)}
    (h : form.markLevel.template inLoopHead = .ok template) : template.IsLeveled := by
  unfold markLevel at h
  split at h
  · rename_i body
    cases h
    exact isLeveled_braces body
  · rename_i discriminant cases
    cases h
    apply Template.IsLeveled.append _ (isLeveled_braces cases)
    simp [Template.IsLeveled, Piece.part, Arrangement.level]
  · rename_i test consequent
    cases h
    apply Template.IsLeveled.append _ (isLeveled_caseBody consequent)
    cases test <;> simp [Template.IsLeveled, Piece.part, Arrangement.level]
  · rename_i hblock hswitch hcase
    rw [template_map] at h
    cases htemplate : form.template inLoopHead with
    | error refusal =>
      rw [htemplate] at h
      cases h
    | ok plain =>
      rw [htemplate] at h
      obtain rfl : Template.map (0, ·) plain = template := Except.ok.inj h
      intro arrangement parts hmem part hpart
      obtain ⟨piece, hpiece, heq⟩ := List.mem_map.mp hmem
      cases piece with
      | text fixed => cases heq
      | parts arrangement children =>
        cases heq
        obtain ⟨child, -, rfl⟩ := List.mem_map.mp hpart
        cases arrangement with
        | nested =>
          rcases eq_of_nested_mem_template htemplate hpiece with rfl | ⟨_, rfl⟩ | ⟨_, rfl⟩
          · exact absurd rfl (hblock children)
          · exact absurd rfl (hswitch _ children)
          · exact absurd rfl (hcase _ children)
        | _ => rfl

end Form

theorem mapM_eq_ok {ε : Type} {visit : α → Except ε β} {parts : List α} {answers : List β}
    (h : parts.mapM visit = .ok answers) :
    answers.length = parts.length ∧
      ∀ (i : Nat) part, parts[i]? = some part → ∃ answer, answers[i]? = some answer ∧
        visit part = .ok answer := by
  induction parts generalizing answers with
  | nil =>
    obtain rfl : [] = answers := Except.ok.inj h
    simp
  | cons part parts ih =>
    rw [List.mapM_cons] at h
    cases hpart : visit part with
    | error e =>
      rw [hpart] at h
      cases h
    | ok answer =>
      cases hparts : parts.mapM visit with
      | error e =>
        rw [hpart, hparts] at h
        cases h
      | ok rest =>
        rw [hpart, hparts] at h
        obtain rfl : answer :: rest = answers := Except.ok.inj h
        obtain ⟨hlength, hrest⟩ := ih hparts
        refine ⟨by simp [hlength], ?_⟩
        intro i other hi
        cases i with
        | zero =>
          obtain rfl : part = other := by simpa using hi
          exact ⟨answer, rfl, hpart⟩
        | succ i => exact hrest i other (by simpa using hi)

theorem exists_of_mem_mapM {ε : Type} {visit : α → Except ε β} {parts : List α} {answers : List β}
    (h : parts.mapM visit = .ok answers) {answer : β} (hanswer : answer ∈ answers) :
    ∃ part ∈ parts, visit part = .ok answer := by
  obtain ⟨hlength, hvisit⟩ := mapM_eq_ok h
  obtain ⟨i, hi, rfl⟩ := List.mem_iff_getElem.mp hanswer
  have hpart : parts[i]? = some parts[i] := List.getElem?_eq_getElem (hlength ▸ hi)
  obtain ⟨other, hother, hvisit⟩ := hvisit i _ hpart
  rw [List.getElem?_eq_getElem hi, Option.some_inj] at hother
  exact ⟨parts[i], List.getElem_mem _, hother ▸ hvisit⟩

namespace Cursor

-- How many levels a path leads down, the first step first.
def levelsAlong (cursor : Cursor) : List Nat → Nat
  | [] => 0
  | i :: path =>
    match cursor.form.markLevel.children[i]? with
    | some (level, child) => level + child.levelsAlong path
    | none => 0

-- How many levels deep a node stands in a tree.
def depth (tree : Node) (cursor : Cursor) : Nat :=
  (root tree).levelsAlong cursor.position.reverse

theorem map_snd_getElem?_markLevel (cursor : Cursor) (i : Nat) :
    cursor.form.markLevel.children[i]?.map Prod.snd = cursor.children[i]? := by
  rw [← List.getElem?_map, ← Form.children_map, Form.map_snd_markLevel, children]

theorem exists_number_of_mem_markLevel {cursor child : Cursor} {level : Nat}
    (h : (level, child) ∈ cursor.form.markLevel.printed) :
    ∃ i : Nat, cursor.form.markLevel.children[i]? = some (level, child) ∧
      cursor.children[i]? = some child := by
  obtain ⟨i, hi⟩ := List.getElem?_of_mem (Form.mem_children_of_mem_printed h)
  refine ⟨i, hi, ?_⟩
  rw [← map_snd_getElem?_markLevel, hi]
  rfl

theorem position_of_descend? {cursor other : Cursor} {path : List Nat}
    (h : cursor.descend? path = some other) :
    other.position = path.reverse ++ cursor.position := by
  induction path generalizing cursor with
  | nil =>
    obtain rfl : cursor = other := Option.some.inj h
    rfl
  | cons i path ih =>
    rw [descend?, Option.bind_eq_some_iff] at h
    obtain ⟨child, hchild, hother⟩ := h
    rw [getElem?_children, Option.map_eq_some_iff] at hchild
    obtain ⟨node, -, rfl⟩ := hchild
    simp [ih hother]

-- Levels are counted step by step.
theorem levelsAlong_append {cursor other : Cursor} {path : List Nat}
    (h : cursor.descend? path = some other) (rest : List Nat) :
    cursor.levelsAlong (path ++ rest) = cursor.levelsAlong path + other.levelsAlong rest := by
  induction path generalizing cursor with
  | nil =>
    obtain rfl : cursor = other := Option.some.inj h
    simp [levelsAlong]
  | cons i path ih =>
    rw [descend?, Option.bind_eq_some_iff] at h
    obtain ⟨child, hchild, hother⟩ := h
    rw [← map_snd_getElem?_markLevel, Option.map_eq_some_iff] at hchild
    obtain ⟨⟨level, child⟩, hmark, rfl⟩ := hchild
    simp only [List.cons_append, levelsAlong, hmark]
    rw [ih hother, Nat.add_assoc]

theorem depth_of_descend? {tree : Node} {cursor : Cursor} {path : List Nat}
    (h : (root tree).descend? path = some cursor) :
    cursor.depth tree = (root tree).levelsAlong path := by
  rw [depth, position_of_descend? h]
  simp [root]

theorem depth_of_mem_markLevel {tree : Node} {cursor child : Cursor} {path : List Nat} {level : Nat}
    (hpath : (root tree).descend? path = some cursor)
    (h : (level, child) ∈ cursor.form.markLevel.printed) :
    child.depth tree = cursor.depth tree + level := by
  obtain ⟨i, hi, hnumber⟩ := exists_number_of_mem_markLevel h
  have hstep : cursor.descend? [i] = some child := by simp [descend?, hnumber]
  have hposition : child.position.reverse = path ++ [i] := by
    simp [position_of_descend? hstep, position_of_descend? hpath, root]
  rw [depth, hposition, levelsAlong_append hpath, depth_of_descend? hpath]
  simp [levelsAlong, hi]

-- The parts of a node are as deep as the node and what their marks say.
theorem map_hanging_zipWith {unit : String} (hunit : '\n' ∉ unit.toList) {tree : Node}
    {cursor : Cursor} {path : List Nat} (hpath : (root tree).descend? path = some cursor)
    (texts : List String) :
    (cursor.form.markLevel.printed.zipWith (fun part text => hanging unit part.1 text) texts).map
        (hanging unit (cursor.depth tree)) =
      cursor.form.printed.zipWith
        (fun child text => hanging unit (child.depth tree) text) texts := by
  rw [← Form.map_snd_printed_markLevel cursor.form, List.zipWith_map_left, List.map_zipWith]
  apply List.ext_getElem?
  intro i
  rw [List.getElem?_zipWith, List.getElem?_zipWith]
  cases hi : cursor.form.markLevel.printed[i]? with
  | none => rfl
  | some part =>
    obtain ⟨level, child⟩ := part
    cases texts[i]? with
    | none => rfl
    | some text =>
      simp only [hanging_hanging hunit, depth_of_mem_markLevel hpath (List.mem_of_getElem? hi)]

end Cursor

namespace Printer

variable {printer : Printer}

-- The printed parts of a node occur in its text, each as deep as its mark says.
theorem occurInOrder_of_print {cursor : Cursor} {text : String}
    (h : printer.print cursor = .ok text) :
    ∃ texts, cursor.form.printed.mapM printer.print = .ok texts ∧
      OccurInOrder (cursor.form.markLevel.printed.zipWith
        (fun part text => hanging printer.options.indentUnit part.1 text) texts) text := by
  rw [print_eq] at h
  have hmap : (cursor.form.markLevel.map Prod.snd).template (printer.inLoopHead cursor) =
      printer.template cursor := by
    rw [Form.map_snd_markLevel]
    rfl
  rw [Form.template_map] at hmap
  cases hmarked : cursor.form.markLevel.template (printer.inLoopHead cursor) with
  | error refusal =>
    rw [← hmap, hmarked] at h
    cases h
  | ok marked =>
    have htemplate : printer.template cursor = .ok (Template.map Prod.snd marked) := by
      rw [← hmap, hmarked]
      rfl
    have hparts : (Template.map Prod.snd marked).parts = cursor.form.printed :=
      Form.parts_template htemplate
    rw [htemplate, ok_bind, hparts] at h
    cases htexts : cursor.form.printed.mapM printer.print with
    | error refusal =>
      rw [htexts] at h
      cases h
    | ok texts =>
      rw [htexts, ok_bind, Template.assemble_map] at h
      obtain rfl := Except.ok.inj h
      have hlength : texts.length = marked.parts.length := by
        rw [(mapM_eq_ok htexts).1, ← hparts, Template.parts_map, List.length_map]
      rw [← Form.parts_template hmarked]
      exact ⟨texts, rfl, Template.occurInOrder_assemble printer.options
        (Form.isLeveled_template hmarked) hlength⟩

theorem exists_hanging_of_mem_markLevel {cursor child : Cursor} {text : String}
    (h : printer.print cursor = .ok text) {level : Nat}
    (hchild : (level, child) ∈ cursor.form.markLevel.printed) :
    ∃ rendered, printer.print child = .ok rendered ∧
      ∃ before after,
        text = before ++ hanging printer.options.indentUnit level rendered ++ after := by
  obtain ⟨texts, htexts, hoccur⟩ := occurInOrder_of_print h
  obtain ⟨i, hi⟩ := List.getElem?_of_mem hchild
  have hprinted : cursor.form.printed[i]? = some child := by
    rw [← Form.map_snd_printed_markLevel, List.getElem?_map, hi]
    rfl
  obtain ⟨rendered, hrendered, hprint⟩ := (mapM_eq_ok htexts).2 i child hprinted
  refine ⟨rendered, hprint, hoccur.exists_of_mem (List.mem_of_getElem? (i := i) ?_)⟩
  rw [List.getElem?_zipWith, hi, hrendered]

-- Every visited node occurs in the text, as deep as the way to it leads down.
theorem exists_hanging_of_mem_visited (hunit : '\n' ∉ printer.options.indentUnit.toList)
    {cursor other : Cursor} (hother : other ∈ cursor.visited) {text : String}
    (h : printer.print cursor = .ok text) :
    ∃ path, cursor.descend? path = some other ∧
      ∃ rendered, printer.print other = .ok rendered ∧
        ∃ before after, text = before ++
          hanging printer.options.indentUnit (cursor.levelsAlong path) rendered ++ after := by
  induction cursor using Cursor.induction generalizing text with
  | step cursor ih =>
    rcases Cursor.mem_visited.mp hother with rfl | ⟨child, hchild, hbelow⟩
    · exact ⟨[], rfl, text, h, "", "", by simp [Cursor.levelsAlong]⟩
    · have hmem := Form.mem_children_of_mem_printed hchild
      rw [← Form.map_snd_printed_markLevel] at hchild
      obtain ⟨⟨level, child⟩, hmark, rfl⟩ := List.mem_map.mp hchild
      obtain ⟨i, hi, hnumber⟩ := Cursor.exists_number_of_mem_markLevel hmark
      obtain ⟨middle, hmiddle, front, back, rfl⟩ := exists_hanging_of_mem_markLevel h hmark
      obtain ⟨path, hpath, rendered, hrendered, before, after, rfl⟩ := ih child hmem hbelow hmiddle
      refine ⟨i :: path, by simp [Cursor.descend?, hnumber, hpath], rendered, hrendered, ?_⟩
      refine ⟨front ++ hanging printer.options.indentUnit level before,
        hanging printer.options.indentUnit level after ++ back, ?_⟩
      simp only [hanging_append, hanging_hanging hunit, Cursor.levelsAlong, hi, String.append_assoc]

end Printer

-- Every visited node stands in the text of a tree as it is printed itself, with one unit of
-- indentation on its further lines for every level that it is deep in the tree. The parts of a node
-- stand there in their order and apart from each other.
theorem print_contains_visited (tree : Node) (options : PrintOptions)
    (hunit : '\n' ∉ options.indentUnit.toList) {text : String} (h : tree.print options = .ok text)
    {cursor : Cursor} (hcursor : cursor ∈ (Cursor.root tree).visited) :
    (∃ rendered, Printer.print ⟨.ofTable (.build tree), options⟩ cursor = .ok rendered ∧
      ∃ before after,
        text = before ++ hanging options.indentUnit (cursor.depth tree) rendered ++ after) ∧
    ∃ texts,
      cursor.form.printed.mapM (Printer.print ⟨.ofTable (.build tree), options⟩) = .ok texts ∧
      OccurInOrder (cursor.form.printed.zipWith
        (fun child text => hanging options.indentUnit (child.depth tree) text) texts) text := by
  have hprint : (Printer.ofTree tree options).print (.root tree) = .ok text := h
  obtain ⟨path, hpath, rendered, hrendered, before, after, rfl⟩ :=
    Printer.exists_hanging_of_mem_visited hunit hcursor hprint
  rw [← Cursor.depth_of_descend? hpath]
  refine ⟨⟨rendered, hrendered, before, after, rfl⟩, ?_⟩
  obtain ⟨texts, htexts, hoccur⟩ := Printer.occurInOrder_of_print hrendered
  refine ⟨texts, htexts, ?_⟩
  rw [← Cursor.map_hanging_zipWith hunit hpath]
  exact ((hoccur.hanging _ _).append_left before).append_right after

-- A block among the statements of a case.
def innerBlock : Node :=
  .block [.statement .this]

def switchAround : Node :=
  ⟨.switchStatement .this [⟨.switchCase none [innerBlock, .statement .this]⟩]⟩

-- Two levels lead to the block, and its further lines start that much further in.
theorem print_contains_innerBlock :
    ('\n' ∉ ({} : PrintOptions).indentUnit.toList ∧
      switchAround.print {} = .ok
        "switch (this) \x7b\n  default:\n    \x7b\n      this;\n    \x7d\n    this;\n\x7d" ∧
      (⟨[0, 1], innerBlock⟩ : Cursor) ∈ (Cursor.root switchAround).visited) ∧
    ∃ before after,
      "switch (this) \x7b\n  default:\n    \x7b\n      this;\n    \x7d\n    this;\n\x7d" =
        before ++ "\x7b\n      this;\n    \x7d" ++ after := by
  have hunit : '\n' ∉ ({} : PrintOptions).indentUnit.toList := by decide
  have hprint : switchAround.print {} = .ok
      "switch (this) \x7b\n  default:\n    \x7b\n      this;\n    \x7d\n    this;\n\x7d" := by cbv
  have hvisited : (⟨[0, 1], innerBlock⟩ : Cursor) ∈ (Cursor.root switchAround).visited := by
    refine Cursor.mem_visited.mpr (.inr ⟨⟨[1], ⟨.switchCase none [innerBlock, .statement .this]⟩⟩,
      List.mem_of_getElem? (i := 1) rfl, ?_⟩)
    refine Cursor.mem_visited.mpr (.inr ⟨⟨[0, 1], innerBlock⟩,
      List.mem_of_getElem? (i := 0) rfl, ?_⟩)
    exact Cursor.mem_visited.mpr (.inl rfl)
  refine ⟨⟨hunit, hprint, hvisited⟩, ?_⟩
  obtain ⟨⟨rendered, hrendered, before, after, htext⟩, -⟩ :=
    print_contains_visited switchAround {} hunit hprint hvisited
  have hblock : Printer.print ⟨.ofTable (.build switchAround), {}⟩ ⟨[0, 1], innerBlock⟩ =
      .ok "\x7b\n  this;\n\x7d" := by cbv
  obtain rfl := Except.ok.inj (hblock.symm.trans hrendered)
  exact ⟨before, after, htext⟩

end Estree
