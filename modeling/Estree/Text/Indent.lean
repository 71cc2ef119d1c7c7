namespace Estree.Text

-- The indentation of one nesting level, unless told otherwise.
def indentUnit : String := "  "

-- The text one level deeper: `unit` stands in front of every line, the first line and the empty
-- ones included. Lines are what `\n` separates, so their number stays the same.
def indentWith (unit text : String) : String :=
  text.foldl (fun out c => if c = '\n' then out.push c ++ unit else out.push c) unit

def indent (text : String) : String :=
  indentWith indentUnit text

-- Seen as lists of characters, `unit` opens the text and follows every line break.
theorem toList_indentWith (unit text : String) :
    (indentWith unit text).toList =
      unit.toList ++ text.toList.flatMap fun c => if c = '\n' then c :: unit.toList else [c] := by
  have h (cs : List Char) : ∀ out : String,
      (cs.foldl (fun out c => if c = '\n' then out.push c ++ unit else out.push c) out).toList =
        out.toList ++ cs.flatMap fun c => if c = '\n' then c :: unit.toList else [c] := by
    induction cs with
    | nil => simp
    | cons c cs ih => intro out; by_cases hc : c = '\n' <;> simp [ih, hc]
  rw [indentWith, String.foldl_eq_foldl_toList, h]

end Estree.Text
