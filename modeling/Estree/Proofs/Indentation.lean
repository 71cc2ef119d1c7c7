import Estree.Text.Indent

namespace Estree.Text

-- The lines of a text: what line breaks separate.
def lines (text : String) : List (List Char) :=
  text.toList.splitOn '\n'

-- The characters with padding at the start of every line but the first.
def hang (padding chars : List Char) : List Char :=
  chars.flatMap fun c => if c = '\n' then c :: padding else [c]

@[simp] theorem hang_nil (padding : List Char) : hang padding [] = [] := rfl

@[simp] theorem hang_newline (padding chars : List Char) :
    hang padding ('\n' :: chars) = '\n' :: padding ++ hang padding chars := rfl

theorem hang_cons_of_ne {c : Char} (h : c ≠ '\n') (padding chars : List Char) :
    hang padding (c :: chars) = c :: hang padding chars := by
  simp [hang, h]

@[simp] theorem hang_append (padding a b : List Char) :
    hang padding (a ++ b) = hang padding a ++ hang padding b :=
  List.flatMap_append

theorem hang_nil_padding (chars : List Char) : hang [] chars = chars := by
  induction chars with
  | nil => rfl
  | cons c chars ih =>
    by_cases h : c = '\n'
    · subst h
      rw [hang_newline, ih]
      rfl
    · rw [hang_cons_of_ne h, ih]

theorem hang_of_not_mem {padding chars : List Char} (h : '\n' ∉ chars) :
    hang padding chars = chars := by
  induction chars with
  | nil => rfl
  | cons c chars ih =>
    rw [List.mem_cons, not_or] at h
    rw [hang_cons_of_ne (Ne.symm h.1), ih h.2]

-- Moving a text twice is moving it once by both paddings.
theorem hang_hang {inner : List Char} (h : '\n' ∉ inner) (outer chars : List Char) :
    hang outer (hang inner chars) = hang (outer ++ inner) chars := by
  induction chars with
  | nil => rfl
  | cons c chars ih =>
    by_cases hc : c = '\n'
    · subst hc
      simp [ih, hang_of_not_mem h]
    · rw [hang_cons_of_ne hc, hang_cons_of_ne hc, hang_cons_of_ne hc, ih]

-- Indenting pads the first line too.
theorem toList_indentWith_eq_hang (unit text : String) :
    (indentWith unit text).toList = unit.toList ++ hang unit.toList text.toList :=
  toList_indentWith unit text

-- Texts that are joined are separated by nothing.
theorem join_eq_intercalate (texts : List String) : String.join texts = "".intercalate texts := by
  apply String.toList_inj.mp
  induction texts with
  | nil => rfl
  | cons text texts ih => cases texts <;> simp_all [String.toList_join]

end Estree.Text
