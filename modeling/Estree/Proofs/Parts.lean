import Estree.Form

namespace Estree.Form

variable {α β γ : Type}

section Visits

variable {m : Type → Type} [Monad m] [LawfulMonad m]

theorem mapM_option_pure (f : α → β) (part : Option α) :
    (part.mapM fun part => (pure (f part) : m β)) = pure (part.map f) := by
  cases part <;> simp

theorem mapM_option_map (visit : α → m β) (g : β → γ) (part : Option α) :
    (part.mapM fun part => g <$> visit part) = Option.map g <$> part.mapM visit := by
  cases part <;> simp

theorem mapM_list_map (visit : α → m β) (g : β → γ) (parts : List α) :
    (parts.mapM fun part => g <$> visit part) = List.map g <$> parts.mapM visit := by
  induction parts with
  | nil => simp
  | cons part parts ih => simp [ih]

theorem mapM_list_congr {visit other : α → m β} {parts : List α}
    (h : ∀ part ∈ parts, visit part = other part) : parts.mapM visit = parts.mapM other := by
  induction parts with
  | nil => rfl
  | cons part parts ih =>
    rw [List.mapM_cons, List.mapM_cons, h part (by simp), ih fun p hp => h p (by simp [hp])]

-- Replacing parts and then the replacements is replacing once.
theorem map_mapM (visit : α → m β) (g : β → γ) (form : Form α) :
    map g <$> form.mapM visit = form.mapM fun part => g <$> visit part := by
  cases form
  case newExpression callee arguments => cases arguments <;> simp [mapM, map, mapM_list_map]
  all_goals simp [map, mapM, mapM_option_pure, mapM_option_map, mapM_list_map]

theorem mapM_map (f : α → β) (visit : β → m γ) (form : Form α) :
    (form.map f).mapM visit = form.mapM fun part => visit (f part) := by
  have optional (part : Option α) :
      (part.map f).mapM visit = part.mapM fun part => visit (f part) := by cases part <;> simp
  cases form
  case newExpression callee arguments =>
    cases arguments <;> simp [mapM, map, Function.comp_def]
  all_goals simp [map, mapM, mapM_option_pure, optional, Function.comp_def]

-- Visits that do nothing but replace come to a replacement.
theorem mapM_pure (f : α → β) (form : Form α) :
    (form.mapM fun part => (pure (f part) : m β)) = pure (form.map f) := by
  cases form
  case newExpression callee arguments => cases arguments <;> simp [mapM, map]
  all_goals simp [mapM, map, mapM_option_pure]

theorem mapM_option_const (visit : α → m β) (part : Option α) :
    (part.mapM fun part => (fun _ => part) <$> visit part) =
      (fun _ => part) <$> part.mapM visit := by
  cases part <;> simp

theorem mapM_list_const (visit : α → m β) (parts : List α) :
    (parts.mapM fun part => (fun _ => part) <$> visit part) =
      (fun _ => parts) <$> parts.mapM visit := by
  induction parts with
  | nil => simp
  | cons part parts ih => simp [ih]

-- Visits whose answers are thrown away leave the construct as it is.
theorem mapM_const (visit : α → m β) (form : Form α) :
    (form.mapM fun part => (fun _ => part) <$> visit part) =
      (fun _ => form) <$> form.mapM visit := by
  cases form
  case newExpression callee arguments => cases arguments <;> simp [mapM, mapM_list_const]
  all_goals simp [mapM, mapM_option_const, mapM_list_const]

end Visits

@[simp] theorem map_map (f : α → β) (g : β → γ) (form : Form α) :
    (form.map f).map g = form.map fun part => g (f part) := by
  have h := congrArg Id.run (map_mapM (fun part => (pure (f part) : Id β)) g form)
  simpa [map] using h

@[simp] theorem map_id (form : Form α) : (form.map fun part => part) = form := by
  have h := congrArg Id.run (mapM_const (fun part => (pure part : Id α)) form)
  simpa [map] using h

-- The parts stay what they are when they are numbered.
@[simp] theorem map_snd_number (form : Form α) : form.number.map Prod.snd = form := by
  have hsnd : (fun part : α => Prod.snd <$> takeNumber part) =
      fun part => (fun _ => part) <$> takeNumber part := rfl
  have h := map_mapM takeNumber Prod.snd form
  rw [hsnd, mapM_const] at h
  exact congrArg (fun visit => (visit.run 0).1) h

-- Hands out the parts of a list one by one.
def takePart : StateT (List α) Option α
  | [] => none
  | part :: rest => some (part, rest)

@[simp] theorem run_takePart (part : α) (rest : List α) :
    takePart.run (part :: rest) = some (part, rest) := rfl

@[simp] theorem run_mapM_option_takePart (part : Option α) (rest : List α) :
    (part.mapM fun _ => takePart).run (part.toList ++ rest) = some (part, rest) := by
  cases part <;> simp

@[simp] theorem run_mapM_list_takePart (parts rest : List α) :
    (parts.mapM fun _ => takePart).run (parts ++ rest) = some (parts, rest) := by
  induction parts with
  | nil => simp
  | cons part parts ih => simp [ih]

-- Filling a construct with its own parts, in source order, gives it back.
theorem run_mapM_takePart (form : Form α) (rest : List α) :
    (form.mapM fun _ => takePart).run (form.children ++ rest) = some (form, rest) := by
  cases form
  case newExpression callee arguments => cases arguments <;> simp [mapM, children]
  all_goals simp [mapM, children]

-- Two constructs with the same parts are the same if they look the same from any point of view on
-- the parts. The point of view may be blind: what counts is the construct around them.
theorem eq_of_map_eq {a b : Form α} (f : α → β) (hmap : a.map f = b.map f)
    (hchildren : a.children = b.children) : a = b := by
  have hvisit (form : Form α) : (form.mapM fun _ => (takePart : StateT (List α) Option α)) =
      (form.map f).mapM fun _ => takePart := by rw [mapM_map]
  have ha := run_mapM_takePart a []
  have hb := run_mapM_takePart b []
  rw [hvisit, hmap, hchildren, ← hvisit, hb] at ha
  simpa using ha.symm

theorem map_congr {f g : α → β} {form : Form α} (h : ∀ part ∈ form.children, f part = g part) :
    form.map f = form.map g := by
  apply eq_of_map_eq fun _ => ()
  · rw [map_map, map_map]
  · rw [children_map, children_map]
    exact List.map_congr_left h

-- Visits that agree on the parts of a construct agree on the construct.
theorem mapM_congr {m : Type → Type} [Monad m] [LawfulMonad m] {visit other : α → m β}
    {form : Form α} (h : ∀ part ∈ form.children, visit part = other part) :
    form.mapM visit = form.mapM other := by
  -- The visits are parts themselves for a moment.
  have hvisit (visit : α → m β) : form.mapM visit = (form.map visit).mapM fun part => part := by
    rw [mapM_map]
  rw [hvisit, map_congr h, ← hvisit]

end Estree.Form
