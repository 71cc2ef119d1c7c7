import Estree.Proofs.Refusals

namespace Estree

-- Gives the text of a node or refuses it, and goes over to its next state in either case.
abbrev Callback (σ : Type) := Cursor → σ → Except Unsupported String × σ

namespace Callback

variable {σ : Type}

-- The callback as one that also keeps a list of the nodes it was called on.
def recorded (callback : Callback σ) : Callback (List Cursor × σ) :=
  fun cursor (calls, state) =>
    let (reply, next) := callback cursor state
    (reply, calls ++ [cursor], next)

def toVisit (callback : Callback σ) (cursor : Cursor) : ExceptT Unsupported (StateM σ) String :=
  ExceptT.mk fun state => callback cursor state

-- Called on some nodes in their order, the callback gives these texts and ends in the last state.
inductive Answers (callback : Callback σ) : σ → List Cursor → List String → σ → Prop where
  | nil {state : σ} : Answers callback state [] [] state
  | cons {state next last : σ} {cursor : Cursor} {cursors : List Cursor} {text : String}
      {texts : List String} (hreply : callback cursor state = (.ok text, next))
      (hrest : Answers callback next cursors texts last) :
      Answers callback state (cursor :: cursors) (text :: texts) last

-- Called on some nodes in their order, the callback answers all up to `child` and refuses that one.
inductive Refuses (callback : Callback σ) (state : σ) (front : List Cursor) (child : Cursor)
    (error : Unsupported) (last : σ) : Prop where
  | intro {texts : List String} {middle : σ} (hfront : Answers callback state front texts middle)
      (hreply : callback child middle = (.error error, last))

-- Either all nodes are answered, or there is a first one that is refused.
theorem answers_or_refuses (callback : Callback σ) (state : σ) (cursors : List Cursor) :
    (∃ texts last, Answers callback state cursors texts last) ∨
      ∃ front child back error last, cursors = front ++ child :: back ∧
        Refuses callback state front child error last := by
  induction cursors generalizing state with
  | nil => exact .inl ⟨[], state, .nil⟩
  | cons cursor cursors ih =>
    obtain ⟨reply, next, hreply⟩ : ∃ reply next, callback cursor state = (reply, next) :=
      ⟨_, _, rfl⟩
    cases reply with
    | error error => exact .inr ⟨[], cursor, cursors, error, next, rfl, .nil, hreply⟩
    | ok text =>
      rcases ih next with ⟨texts, last, hrest⟩ | ⟨front, child, back, error, last, hsplit, hrest⟩
      · exact .inl ⟨text :: texts, last, .cons hreply hrest⟩
      · obtain ⟨hfront, hrefused⟩ := hrest
        exact .inr ⟨cursor :: front, child, back, error, last, by rw [hsplit]; rfl,
          .cons hreply hfront, hrefused⟩

-- Recording adds the nodes to the list and changes no answer.
theorem Answers.recorded {callback : Callback σ} {state last : σ} {cursors : List Cursor}
    {texts : List String} (h : Answers callback state cursors texts last) (calls : List Cursor) :
    Answers callback.recorded (calls, state) cursors texts (calls ++ cursors, last) := by
  induction h generalizing calls with
  | nil =>
    rw [List.append_nil]
    exact .nil
  | @cons state next last cursor cursors text texts hreply hrest ih =>
    rw [List.append_cons]
    refine .cons ?_ (ih (calls ++ [cursor]))
    rw [Callback.recorded, hreply]

theorem Refuses.recorded {callback : Callback σ} {state last : σ} {front : List Cursor}
    {child : Cursor} {error : Unsupported} (h : Refuses callback state front child error last) :
    Refuses callback.recorded ([], state) front child error (front ++ [child], last) := by
  obtain ⟨hfront, hreply⟩ := h
  refine ⟨hfront.recorded [], ?_⟩
  rw [Callback.recorded, hreply]
  rfl

section Run

variable {α β : Type} {visit : ExceptT Unsupported (StateM σ) α} {state middle : σ}

theorem run_bind_of_ok {value : α} (h : visit.run.run state = (.ok value, middle))
    (next : α → ExceptT Unsupported (StateM σ) β) :
    (visit >>= next).run.run state = (next value).run.run middle := by
  rw [ExceptT.run_bind, StateT.run_bind, h]
  rfl

theorem run_bind_of_error {error : Unsupported} (h : visit.run.run state = (.error error, middle))
    (next : α → ExceptT Unsupported (StateM σ) β) :
    (visit >>= next).run.run state = (.error error, middle) := by
  rw [ExceptT.run_bind, StateT.run_bind, h]
  rfl

end Run

-- Visiting nodes one after the other gives all their texts if all are answered.
theorem Answers.run_mapM {callback : Callback σ} {state last : σ} {cursors : List Cursor}
    {texts : List String} (h : Answers callback state cursors texts last) :
    (cursors.mapM callback.toVisit).run.run state = (.ok texts, last) := by
  induction h with
  | nil => rfl
  | @cons state next last cursor cursors text texts hreply hrest ih =>
    have hvisit : (callback.toVisit cursor).run.run state = (.ok text, next) := hreply
    rw [List.mapM_cons, run_bind_of_ok hvisit, run_bind_of_ok ih]
    rfl

-- A refusal ends the visits, and it is what comes out.
theorem Refuses.run_mapM {callback : Callback σ} {state last : σ} {front back : List Cursor}
    {child : Cursor} {error : Unsupported} (h : Refuses callback state front child error last) :
    ((front ++ child :: back).mapM callback.toVisit).run.run state = (.error error, last) := by
  obtain ⟨hfront, hreply⟩ := h
  have hvisit := hreply
  change (callback.toVisit child).run.run _ = _ at hvisit
  rw [List.mapM_append, run_bind_of_ok hfront.run_mapM, List.mapM_cons]
  exact run_bind_of_error (run_bind_of_error hvisit _) _

end Callback

namespace Printer

variable {σ : Type}

-- The text of one node, with what a callback says for those below it, and the last state of the
-- callback.
def renderWith (printer : Printer) (cursor : Cursor) (callback : Callback σ) (state : σ) :
    Except Unsupported String × σ :=
  (printer.render cursor callback.toVisit).run.run state

theorem renderWith_of_template {printer : Printer} {cursor : Cursor} {template : Template Cursor}
    (h : printer.template cursor = .ok template) (callback : Callback σ) (state : σ) :
    printer.renderWith cursor callback state =
      (do
        let texts ← cursor.form.printed.mapM callback.toVisit
        return template.assemble printer.options texts :
          ExceptT Unsupported (StateM σ) String).run.run state := by
  rw [renderWith, render, h, ← Form.parts_template h]
  rfl

theorem renderWith_of_isOffending (printer : Printer) {cursor : Cursor}
    (h : cursor.node.isOffending = true) (callback : Callback σ) (state : σ) :
    printer.renderWith cursor callback state = (.error ⟨cursor.node.kindName⟩, state) := by
  rw [← Cursor.isOffending_form] at h
  rw [renderWith, render, template, Form.template_of_isOffending _ h, Cursor.kindName_form]
  rfl

-- What comes out depends on the texts of the parts only, and not on the callback that gives them.
theorem exists_renderWith_of_texts (printer : Printer) {cursor : Cursor}
    (h : cursor.node.isOffending = false) (texts : List String) :
    ∃ text, ∀ {σ : Type} {callback : Callback σ} {state last : σ},
      callback.Answers state cursor.form.printed texts last →
        printer.renderWith cursor callback state = (.ok text, last) := by
  rw [← Cursor.isOffending_form] at h
  obtain ⟨template, htemplate⟩ := Form.exists_template (printer.inLoopHead cursor) h
  refine ⟨template.assemble printer.options texts, ?_⟩
  intro σ callback state last hparts
  rw [renderWith_of_template htemplate, Callback.run_bind_of_ok hparts.run_mapM]
  rfl

theorem renderWith_of_refuses (printer : Printer) {cursor : Cursor}
    (h : cursor.node.isOffending = false) {callback : Callback σ} {state last : σ}
    {front back : List Cursor} {child : Cursor} {error : Unsupported}
    (hparts : cursor.form.printed = front ++ child :: back)
    (hrefuses : callback.Refuses state front child error last) :
    printer.renderWith cursor callback state = (.error error, last) := by
  rw [← Cursor.isOffending_form] at h
  obtain ⟨template, htemplate⟩ := Form.exists_template (printer.inLoopHead cursor) h
  rw [renderWith_of_template htemplate, hparts]
  exact Callback.run_bind_of_error hrefuses.run_mapM _

end Printer

theorem Cursor.nodup_printed (cursor : Cursor) : cursor.form.printed.Nodup := by
  have hnodup := cursor.form.children_perm.nodup_iff.mp cursor.nodup_children
  exact (List.nodup_append.mp hnodup).1

-- A node that is not printed is refused without a call. For any other node the callback is called
-- on the printed parts in source order, once on each, until one is refused: that refusal is then
-- what comes out, and if there is none a text does.
theorem renderWith_calls {σ : Type} (printer : Printer) (cursor : Cursor) (callback : Callback σ)
    (state : σ) :
    let outcome := printer.renderWith cursor callback.recorded ([], state)
    printer.renderWith cursor callback state = (outcome.1, outcome.2.2) ∧
    if cursor.node.isOffending then
      outcome = (.error ⟨cursor.node.kindName⟩, [], state)
    else
      cursor.form.printed.Nodup ∧
      ((∃ texts last text, callback.Answers state cursor.form.printed texts last ∧
          outcome = (.ok text, cursor.form.printed, last)) ∨
        ∃ front child back error last, cursor.form.printed = front ++ child :: back ∧
          callback.Refuses state front child error last ∧
          outcome = (.error error, front ++ [child], last)) := by
  dsimp only
  cases hoffending : cursor.node.isOffending with
  | true =>
    rw [if_pos rfl, printer.renderWith_of_isOffending hoffending,
      printer.renderWith_of_isOffending hoffending]
    exact ⟨rfl, rfl⟩
  | false =>
    rw [if_neg Bool.false_ne_true]
    rcases callback.answers_or_refuses state cursor.form.printed with
      ⟨texts, last, hparts⟩ | ⟨front, child, back, error, last, hparts, hrefuses⟩
    · obtain ⟨text, htext⟩ := printer.exists_renderWith_of_texts hoffending texts
      rw [htext hparts, htext (hparts.recorded [])]
      exact ⟨rfl, cursor.nodup_printed, .inl ⟨texts, last, text, hparts, rfl⟩⟩
    · have hplain := printer.renderWith_of_refuses hoffending hparts hrefuses
      have hcalls := printer.renderWith_of_refuses hoffending hparts hrefuses.recorded
      rw [hplain, hcalls]
      exact ⟨rfl, cursor.nodup_printed,
        .inr ⟨front, child, back, error, last, hparts, hrefuses, rfl⟩⟩

end Estree
