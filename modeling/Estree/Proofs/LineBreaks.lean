import Estree.Proofs.Brackets

namespace Estree

open Text

variable {α β : Type}

namespace Arrangement

-- Whether line breaks are put between or around parts with some texts, besides those that the
-- texts have themselves.
def breaksLine (texts : List String) : Arrangement → Bool
  | separatedBy separator => separator.contains '\n' && 2 ≤ texts.length
  | nested => true
  | declarators => false
  | loopBody => !((String.join texts).back? == some '\x7d')

theorem newline_mem_intercalate (separator : String) (texts : List String) :
    '\n' ∈ (separator.intercalate texts).toList ↔
      ('\n' ∈ separator.toList ∧ 2 ≤ texts.length) ∨ ∃ text ∈ texts, '\n' ∈ text.toList := by
  induction texts with
  | nil => simp
  | cons text texts ih =>
    cases texts with
    | nil => simp
    | cons next texts =>
      rw [String.intercalate_cons_cons, String.toList_append, String.toList_append,
        List.mem_append, List.mem_append, ih]
      simp
      grind

theorem newline_mem_write (options : PrintOptions) (arrangement : Arrangement)
    (texts : List String) :
    '\n' ∈ (arrangement.write options texts).toList ↔
      arrangement.breaksLine texts = true ∨ ∃ text ∈ texts, '\n' ∈ text.toList := by
  cases arrangement with
  | separatedBy separator =>
    rw [write, newline_mem_intercalate]
    simp [breaksLine]
  | nested => simp [write, breaksLine]
  | declarators =>
    -- the separator breaks lines only if one of the texts does
    rw [write, newline_mem_intercalate, declaratorSeparator]
    by_cases h : ∃ text ∈ texts, '\n' ∈ text.toList
    · simp [h]
    · simp [h, breaksLine]
  | loopBody =>
    rw [write, join_eq_intercalate, String.toList_append, List.mem_append,
      newline_mem_intercalate, beforeCondition, breaksLine, join_eq_intercalate]
    split <;> simp_all

end Arrangement

namespace Piece

-- Whether a piece of a template breaks a line, given the texts of its parts.
def breaksLine (text : α → String) : Piece α → Bool
  | .text fixed => fixed.contains '\n'
  | .parts arrangement children => arrangement.breaksLine (children.map text)

end Piece

namespace Template

theorem newline_mem_assemble (options : PrintOptions) (text : α → String)
    (template : Template α) :
    '\n' ∈ (template.assemble options (template.parts.map text)).toList ↔
      template.any (Piece.breaksLine text) = true ∨
        ∃ part ∈ template.parts, '\n' ∈ (text part).toList := by
  induction template with
  | nil => simp [assemble]
  | cons piece template ih =>
    cases piece with
    | text fixed => simp [assemble, ih, Piece.breaksLine, or_assoc]
    | parts arrangement children =>
      have hwrite := arrangement.newline_mem_write options (children.map text)
      simp [assemble, ih, Piece.breaksLine, hwrite]
      grind

end Template

namespace Form

-- Whether a construct is written on more than one line on its own account, given which of its parts
-- end in a closing brace.
def breaksLine (endsInBrace : α → Bool) : Form α → Bool
  | .program body => 2 ≤ body.length
  | .blockStatement body => !body.isEmpty
  | .switchStatement _ cases => !cases.isEmpty
  | .switchCase _ consequent => 2 ≤ consequent.length
  | .labeledStatement _ _ => true
  | .doWhileStatement body _ => !endsInBrace body
  | form => form.words.any (·.contains '\n')

@[simp] theorem newline_notMem_word (present : Bool) {text : String} (h : '\n' ∉ text.toList) :
    '\n' ∉ (word present text).toList := by
  cases present
  · simp [word]
  · exact h

@[simp] theorem newline_notMem_keyword (kind : VariableKind) : '\n' ∉ kind.keyword.toList := by
  cases kind <;> decide

@[simp] theorem newline_notMem_terminator (inLoopHead : Bool) :
    '\n' ∉ (terminator inLoopHead).toList := by
  cases inLoopHead <;> decide

@[simp] theorem newline_notMem_afterOperator (operator : String) :
    '\n' ∉ (afterOperator operator).toList := by
  unfold afterOperator
  split <;> decide

@[simp] theorem newline_notMem_literal (value : LiteralValue) : '\n' ∉ value.text.toList := by
  cases value with
  | null => decide
  | boolean value => cases value <;> decide
  | number value =>
    have havoids : Avoids ['\n'] (LiteralValue.number value).text.toList :=
      Decimal.avoids_numeral rfl value
    exact fun h => havoids '\n' h List.mem_cons_self
  | string value => exact newline_not_mem_quote value

section Pieces

variable (text : α → String)

@[simp] theorem any_breaksLine_optional {before : String} (h : '\n' ∉ before.toList)
    (child : Option α) : (optional before child).any (Piece.breaksLine text) = false := by
  cases child
  · rfl
  · simp [optional, Piece.breaksLine, Piece.part, Arrangement.breaksLine, h]

@[simp] theorem any_breaksLine_braces (body : List α) :
    (braces body).any (Piece.breaksLine text) = !body.isEmpty := by
  cases body <;> simp [braces, Piece.breaksLine]

@[simp] theorem any_breaksLine_caseBody (statements : List α) :
    (caseBody statements).any (Piece.breaksLine text) = decide (2 ≤ statements.length) := by
  rcases statements with _ | ⟨only, _ | ⟨next, others⟩⟩ <;>
    simp [caseBody, Piece.breaksLine, Piece.part, Arrangement.breaksLine]

@[simp] theorem any_breaksLine_arrowParams (params : List α) :
    (arrowParams params).any (Piece.breaksLine text) = false := by
  rcases params with _ | ⟨only, _ | ⟨next, others⟩⟩ <;>
    simp [arrowParams, Piece.breaksLine, Piece.part, Piece.list, Arrangement.breaksLine]

@[simp] theorem any_breaksLine_function (id : Option α) (params : List α) (body : α)
    (generator async : Bool) :
    (function id params body generator async).any (Piece.breaksLine text) = false := by
  simp [function, Piece.breaksLine, Piece.part, Piece.list, Arrangement.breaksLine,
    -List.any_eq_false]

end Pieces

-- The template of a construct breaks lines where the construct is said to. Fixed text and literals
-- do not, and words do if they have line breaks in them.
theorem any_breaksLine_template (text : α → String) {inLoopHead : Bool} {form : Form α}
    {template : Template α} (h : form.template inLoopHead = .ok template) :
    template.any (Piece.breaksLine text) =
      form.breaksLine fun part => (text part).back? == some '\x7d' := by
  unfold Form.template at h
  split at h <;> cases h
  all_goals simp [Piece.breaksLine, Piece.part, Piece.list, Arrangement.breaksLine, breaksLine,
    words, newline_not_mem_quote, RegexLiteral.text, -List.any_eq_false]
  -- the label of a case
  rename_i test consequent
  cases test <;> simp

end Form

namespace Printer

variable {printer : Printer}

-- The text of a node, and no text if it is refused.
def text (printer : Printer) (cursor : Cursor) : String :=
  match printer.print cursor with
  | .ok text => text
  | .error _ => ""

theorem text_of_print {cursor : Cursor} {text : String} (h : printer.print cursor = .ok text) :
    printer.text cursor = text := by
  rw [Printer.text, h]

-- Whether a node is written on more than one line on its own account, and not only because of
-- what stands below it.
def breaksLine (printer : Printer) (cursor : Cursor) : Bool :=
  cursor.form.breaksLine fun part => (printer.text part).back? == some '\x7d'

theorem texts_eq_map {cursors : List Cursor} {texts : List String}
    (h : cursors.mapM printer.print = .ok texts) : texts = cursors.map printer.text := by
  obtain ⟨hlength, hanswers⟩ := mapM_eq_ok h
  apply List.ext_getElem?
  intro i
  rw [List.getElem?_map]
  cases hi : cursors[i]? with
  | none =>
    rw [List.getElem?_eq_none_iff] at hi
    simpa [hlength] using hi
  | some cursor =>
    obtain ⟨text, htext, hprint⟩ := hanswers i cursor hi
    rw [htext, Option.map_some, text_of_print hprint]

-- A node that is printed is its template filled with the texts of its parts, which are printed too.
theorem exists_template_of_print {cursor : Cursor} {text : String}
    (h : printer.print cursor = .ok text) :
    ∃ template, printer.template cursor = .ok template ∧
      text = template.assemble printer.options (template.parts.map printer.text) ∧
      ∀ part ∈ cursor.form.printed, printer.print part = .ok (printer.text part) := by
  rw [print_eq] at h
  obtain ⟨template, htemplate, h⟩ := exists_of_bind_eq_ok h
  obtain ⟨texts, htexts, h⟩ := exists_of_bind_eq_ok h
  have hparts : template.parts = cursor.form.printed := Form.parts_template htemplate
  refine ⟨template, htemplate, ?_, ?_⟩
  · rw [← texts_eq_map htexts]
    exact (Except.ok.inj h).symm
  · intro part hpart
    rw [← hparts] at hpart
    obtain ⟨i, hi⟩ := List.getElem?_of_mem hpart
    obtain ⟨rendered, -, hprint⟩ := (mapM_eq_ok htexts).2 i part hi
    rw [hprint, text_of_print hprint]

-- A node spans several lines if it or a part of it does.
theorem newline_mem_iff_parts {cursor : Cursor} {text : String}
    (h : printer.print cursor = .ok text) :
    '\n' ∈ text.toList ↔ printer.breaksLine cursor = true ∨
      ∃ part ∈ cursor.form.printed, '\n' ∈ (printer.text part).toList := by
  obtain ⟨template, htemplate, rfl, -⟩ := exists_template_of_print h
  rw [Template.newline_mem_assemble, Form.any_breaksLine_template printer.text htemplate,
    Form.parts_template htemplate]
  rfl

-- The text of a node has line breaks exactly if a visited node puts them there.
theorem newline_mem_iff_visited {cursor : Cursor} {text : String}
    (h : printer.print cursor = .ok text) :
    '\n' ∈ text.toList ↔ ∃ other ∈ cursor.visited, printer.breaksLine other = true := by
  induction cursor using Cursor.induction generalizing text with
  | step cursor ih =>
    obtain ⟨-, -, -, hparts⟩ := exists_template_of_print h
    have hbelow : ∀ part ∈ cursor.form.printed, ('\n' ∈ (printer.text part).toList ↔
        ∃ other ∈ part.visited, printer.breaksLine other = true) := fun part hpart =>
      ih part (Form.mem_children_of_mem_printed hpart) (hparts part hpart)
    rw [newline_mem_iff_parts h]
    constructor
    · rintro (hself | ⟨part, hpart, hline⟩)
      · exact ⟨cursor, Cursor.mem_visited.mpr (.inl rfl), hself⟩
      · obtain ⟨other, hother, hbreaks⟩ := (hbelow part hpart).mp hline
        exact ⟨other, Cursor.mem_visited.mpr (.inr ⟨part, hpart, hother⟩), hbreaks⟩
    · rintro ⟨other, hother, hbreaks⟩
      rcases Cursor.mem_visited.mp hother with rfl | ⟨part, hpart, hother⟩
      · exact .inl hbreaks
      · exact .inr ⟨part, hpart, (hbelow part hpart).mpr ⟨other, hother, hbreaks⟩⟩

theorem print_of_mem_visited {cursor other : Cursor} (hother : other ∈ cursor.visited)
    {text : String} (h : printer.print cursor = .ok text) :
    printer.print other = .ok (printer.text other) := by
  induction cursor using Cursor.induction generalizing text with
  | step cursor ih =>
    rcases Cursor.mem_visited.mp hother with rfl | ⟨part, hpart, hother⟩
    · rw [h, text_of_print h]
    · obtain ⟨-, -, -, hparts⟩ := exists_template_of_print h
      exact ih part (Form.mem_children_of_mem_printed hpart) hother (hparts part hpart)

-- Declarators stand on lines of their own exactly if a node in one of them breaks a line.
theorem declaratorSeparator_eq {declarations : List Cursor}
    (h : ∀ declarator ∈ declarations, printer.print declarator = .ok (printer.text declarator)) :
    Arrangement.declaratorSeparator printer.options (declarations.map printer.text) =
      if ∃ declarator ∈ declarations, ∃ other ∈ declarator.visited, printer.breaksLine other = true
      then ",\n" ++ printer.options.continuationIndent else ", " := by
  have hline : (∃ declarator ∈ declarations, '\n' ∈ (printer.text declarator).toList) ↔
      ∃ declarator ∈ declarations, ∃ other ∈ declarator.visited,
        printer.breaksLine other = true := by
    apply exists_congr
    intro declarator
    exact and_congr_right fun hmem => newline_mem_iff_visited (h declarator hmem)
  simp only [Arrangement.declaratorSeparator, ← hline]
  simp

theorem print_variableDeclaration {cursor : Cursor} {kind : VariableKind}
    {declarations : List Cursor} (hform : cursor.form = .variableDeclaration kind declarations)
    {text : String} (h : printer.print cursor = .ok text) :
    ∃ texts, declarations.mapM printer.print = .ok texts ∧
      text = kind.keyword ++ " " ++
        (if ∃ declarator ∈ declarations, ∃ other ∈ declarator.visited,
            printer.breaksLine other = true
          then ",\n" ++ printer.options.continuationIndent else ", ").intercalate texts ++
        Form.terminator (printer.inLoopHead cursor) := by
  obtain ⟨template, htemplate, rfl, hparts⟩ := exists_template_of_print h
  simp only [hform, Form.printed, Form.children] at hparts
  refine ⟨declarations.map printer.text, ?_, ?_⟩
  · have htexts : declarations.mapM printer.print =
        declarations.mapM fun part => .ok (printer.text part) := Form.mapM_list_congr hparts
    rw [htexts]
    exact List.mapM_pure
  · have htake : (declarations.map printer.text).take declarations.length =
        declarations.map printer.text := List.take_of_length_le (by simp)
    rw [Printer.template, hform] at htemplate
    cases htemplate
    simp [Template.assemble, Arrangement.write, ← declaratorSeparator_eq hparts, htake,
      String.append_assoc]

end Printer

-- A printed text spans several lines exactly if a visited node breaks a line itself: a program of
-- several statements, a block or a `switch` that is not empty, a case with several statements, a
-- label, a loop with its condition on a line of its own, or a word with a line break in it. So the
-- declarators of a declaration stand on lines of their own exactly if there is such a node in one
-- of them.
theorem print_newline_iff (tree : Node) (options : PrintOptions) {text : String}
    (h : tree.print options = .ok text) :
    ('\n' ∈ text.toList ↔ ∃ cursor ∈ (Cursor.root tree).visited,
      (Printer.ofTree tree options).breaksLine cursor = true) ∧
    ∀ cursor ∈ (Cursor.root tree).visited, ∀ kind declarations,
      cursor.form = .variableDeclaration kind declarations →
        ∃ texts, declarations.mapM (Printer.ofTree tree options).print = .ok texts ∧
          (Printer.ofTree tree options).print cursor = .ok (kind.keyword ++ " " ++
            (if ∃ declarator ∈ declarations, ∃ other ∈ declarator.visited,
                (Printer.ofTree tree options).breaksLine other = true
              then ",\n" ++ options.continuationIndent else ", ").intercalate texts ++
            Form.terminator ((Printer.ofTree tree options).inLoopHead cursor)) := by
  have hprint : (Printer.ofTree tree options).print (.root tree) = .ok text := h
  refine ⟨Printer.newline_mem_iff_visited hprint, ?_⟩
  intro cursor hcursor kind declarations hform
  have hdeclaration := Printer.print_of_mem_visited hcursor hprint
  obtain ⟨texts, htexts, htext⟩ := Printer.print_variableDeclaration hform hdeclaration
  exact ⟨texts, htexts, hdeclaration.trans (congrArg Except.ok htext)⟩

-- A loop whose condition stands on a line of its own, and a string with a line break in its value.
def loopAndString : Node :=
  .declaration .var
    [.declarator "f" (some ⟨.arrowFunctionExpression []
        ⟨.doWhileStatement (.statement .this) .this⟩ false⟩),
      .declarator "s" (some (.string "\n"))]

-- The loop breaks a line, and so the declarators are put apart.
theorem print_newline_iff_loopAndString :
    loopAndString.print {} = .ok "var f = () => do this;\nwhile (this);,\n    s = '\\n';" ∧
      ∃ cursor ∈ (Cursor.root loopAndString).visited,
        (Printer.ofTree loopAndString {}).breaksLine cursor = true := by
  have hprint : loopAndString.print {} =
      .ok "var f = () => do this;\nwhile (this);,\n    s = '\\n';" := by cbv
  exact ⟨hprint, (print_newline_iff loopAndString {} hprint).1.mp (by decide)⟩

end Estree
