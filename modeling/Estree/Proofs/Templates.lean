import Estree.Printer
import Estree.Proofs.Parts

namespace Estree

variable {α β : Type}

namespace Piece

-- The piece with every part replaced by its image.
def map (f : α → β) : Piece α → Piece β
  | .text fixed => .text fixed
  | .parts arrangement children => .parts arrangement (children.map f)

@[simp] theorem map_text (f : α → β) (fixed : String) : (text fixed).map f = text fixed := rfl

@[simp] theorem map_parts (f : α → β) (arrangement : Arrangement) (children : List α) :
    (parts arrangement children).map f = parts arrangement (children.map f) := rfl

@[simp] theorem map_part (f : α → β) (child : α) : (part child).map f = part (f child) := rfl

@[simp] theorem map_list (f : α → β) (separator : String) (children : List α) :
    (list separator children).map f = list separator (children.map f) := rfl

end Piece

namespace Template

-- The template with every part replaced by its image.
def map (f : α → β) (template : Template α) : Template β :=
  List.map (Piece.map f) template

@[simp] theorem map_nil (f : α → β) : map f ([] : Template α) = [] := rfl

@[simp] theorem map_cons (f : α → β) (piece : Piece α) (template : Template α) :
    map f (piece :: template) = piece.map f :: map f template := rfl

@[simp] theorem map_append (f : α → β) (first second : Template α) :
    map f (first ++ second) = map f first ++ map f second :=
  List.map_append

theorem parts_map (f : α → β) (template : Template α) :
    (map f template).parts = template.parts.map f := by
  induction template with
  | nil => rfl
  | cons piece template ih => cases piece <;> simp [ih]

-- A text depends on the texts of the parts and not on the parts themselves.
theorem assemble_map (options : PrintOptions) (f : α → β) (template : Template α)
    (texts : List String) :
    (map f template).assemble options texts = template.assemble options texts := by
  induction template generalizing texts with
  | nil => rfl
  | cons piece template ih => cases piece <;> simp [assemble, ih]

end Template

namespace Form

@[simp] theorem map_optional (f : α → β) (before : String) (child : Option α) :
    (optional before child).map f = optional before (child.map f) := by
  cases child <;> rfl

@[simp] theorem map_braces (f : α → β) (body : List α) :
    (braces body).map f = braces (body.map f) := by
  cases body <;> rfl

@[simp] theorem map_caseBody (f : α → β) (statements : List α) :
    (caseBody statements).map f = caseBody (statements.map f) := by
  match statements with
  | [] => rfl
  | [_] => rfl
  | _ :: _ :: _ => rfl

@[simp] theorem map_arrowParams (f : α → β) (params : List α) :
    (arrowParams params).map f = arrowParams (params.map f) := by
  match params with
  | [] => rfl
  | [_] => rfl
  | _ :: _ :: _ => rfl

@[simp] theorem map_function (f : α → β) (id : Option α) (params : List α) (body : α)
    (generator async : Bool) :
    (function id params body generator async).map f =
      function (id.map f) (params.map f) (f body) generator async := by
  simp [function]

-- How a construct is written does not depend on what its parts are.
theorem template_map (f : α → β) (inLoopHead : Bool) (form : Form α) :
    (form.map f).template inLoopHead = (form.template inLoopHead).map (Template.map f) := by
  cases form
  all_goals simp only [map, mapM, mapM_option_pure, List.mapM_pure, bind_pure_comp, map_pure,
    Id.run_pure]
  -- these are written in more than one way
  case ifStatement test consequent alternate => cases alternate <;> rfl
  case catchClause param guard body =>
    cases param with
    | none => rfl
    | some param => simp [template, Except.map]
  case switchCase test consequent => cases test <;> simp [template, Except.map]
  case literal value regex => cases regex <;> rfl
  case memberExpression object member computed => cases computed <;> rfl
  case newExpression callee arguments => cases arguments <;> rfl
  case updateExpression operator argument leading => cases leading <;> rfl
  case property key value kind method => cases kind <;> cases method <;> rfl
  case moduleDeclaration id source body =>
    cases source with
    | none => simp [template, Except.map]
    | some source => rfl
  all_goals simp only [template, Except.map, Template.map_cons, Template.map_append,
    Template.map_nil, Piece.map_part, Piece.map_text, Piece.map_list, Piece.map_parts,
    List.map_cons, List.map_nil, map_optional, map_function, map_braces, map_arrowParams]

end Form

-- What follows a result goes on with it, and nothing follows a failure.
theorem ok_bind {ε : Type} (value : α) (next : α → Except ε β) :
    (Except.ok value >>= next) = next value := rfl

theorem error_bind {ε : Type} (failure : ε) (next : α → Except ε β) :
    (Except.error failure >>= next) = .error failure := rfl

theorem exists_of_bind_eq_ok {ε : Type} {outcome : Except ε α} {next : α → Except ε β}
    {result : β} (h : outcome >>= next = .ok result) :
    ∃ value, outcome = .ok value ∧ next value = .ok result := by
  cases outcome with
  | error failure => cases h
  | ok value => exact ⟨value, rfl, h⟩

theorem exists_of_map_eq_ok {ε : Type} {outcome : Except ε α} {f : α → β} {result : β}
    (h : outcome.map f = .ok result) : ∃ value, outcome = .ok value ∧ f value = result := by
  cases outcome with
  | error failure => cases h
  | ok value => exact ⟨value, rfl, Except.ok.inj h⟩

theorem eq_ok_of_mapError {ε ε' : Type} {outcome : Except ε α} {f : ε → ε'} {value : α}
    (h : outcome.mapError f = .ok value) : outcome = .ok value := by
  cases outcome with
  | error cause => cases h
  | ok found =>
    cases h
    rfl

theorem mapM_cons_of_ok {ε : Type} {visit : α → Except ε β} {part : α} {answer : β}
    (hpart : visit part = .ok answer) {parts : List α} {answers : List β}
    (hparts : parts.mapM visit = .ok answers) :
    (part :: parts).mapM visit = .ok (answer :: answers) := by
  rw [List.mapM_cons, hpart, hparts]
  rfl

namespace Printer

-- Printing a node is finding its template and filling it with the texts of its parts.
theorem print_eq (printer : Printer) (cursor : Cursor) :
    printer.print cursor = do
      let template ← printer.template cursor
      let texts ← template.parts.mapM printer.print
      return template.assemble printer.options texts := by
  rw [print_eq_render, render]
  cases printer.template cursor <;> rfl

end Printer

end Estree
