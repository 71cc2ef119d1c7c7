import Mathlib.Logic.Function.Iterate
import Estree.Proofs.Indentation

namespace Estree.Text

-- Joined by line breaks, the lines of a text are the text.
theorem intercalate_lines (text : String) : ['\n'].intercalate (lines text) = text.toList :=
  List.intercalate_splitOn '\n'

theorem lines_ne_nil (text : String) : lines text ≠ [] :=
  List.splitOn_ne_nil '\n' text.toList

theorem newline_notMem_of_mem_splitOn {chars line : List Char} (h : line ∈ chars.splitOn '\n') :
    '\n' ∉ line := by
  induction chars generalizing line with
  | nil =>
    rw [List.splitOn_nil, List.mem_singleton] at h
    simp [h]
  | cons c chars ih =>
    obtain ⟨first, rest, hlines⟩ := List.exists_cons_of_ne_nil (List.splitOn_ne_nil '\n' chars)
    rw [List.splitOn_cons_eq_if_modifyHead, hlines] at h
    rw [hlines] at ih
    by_cases hc : c = '\n'
    · rw [if_pos (by simpa using hc), List.mem_cons] at h
      rcases h with rfl | h
      · simp
      · exact ih h
    · rw [if_neg (by simpa using hc), List.modifyHead_cons, List.mem_cons] at h
      rcases h with rfl | h
      · have hfirst : '\n' ∉ first := ih List.mem_cons_self
        simp [Ne.symm hc, hfirst]
      · exact ih (List.mem_cons_of_mem first h)

theorem newline_notMem_of_mem_lines {text : String} {line : List Char} (h : line ∈ lines text) :
    '\n' ∉ line :=
  newline_notMem_of_mem_splitOn h

theorem hang_cons (padding : List Char) (c : Char) (chars : List Char) :
    hang padding (c :: chars) =
      c :: ((if c = '\n' then padding else []) ++ hang padding chars) := by
  by_cases hc : c = '\n'
  · simp [hc]
  · simp [hang_cons_of_ne hc, hc]

-- Padding all lines of a text, the first one too, is padding its lines one by one.
theorem append_hang_intercalate (padding : List Char) {lines : List (List Char)} (hne : lines ≠ [])
    (h : ∀ line ∈ lines, '\n' ∉ line) :
    padding ++ hang padding (['\n'].intercalate lines) =
      ['\n'].intercalate (lines.map (padding ++ ·)) := by
  induction lines with
  | nil => exact absurd rfl hne
  | cons line lines ih =>
    rw [List.forall_mem_cons] at h
    cases lines with
    | nil => simp [hang_of_not_mem h.1]
    | cons next lines =>
      have hrest := ih (List.cons_ne_nil next lines) h.2
      simp only [List.map_cons, List.intercalate_cons_cons] at hrest ⊢
      rw [hang_append, hang_append, hang_of_not_mem h.1, ← hrest]
      simp

-- A padded text is read from the left: behind a line break stands the padding, which is known.
theorem hang_injective (padding : List Char) : Function.Injective (hang padding) := by
  intro a b h
  induction a generalizing b with
  | nil =>
    cases b with
    | nil => rfl
    | cons d b => simp [hang_cons] at h
  | cons c a ih =>
    cases b with
    | nil => simp [hang_cons] at h
    | cons d b =>
      rw [hang_cons, hang_cons] at h
      obtain ⟨rfl, h⟩ := List.cons.inj h
      rw [ih (List.append_cancel_left h)]

section IndentWith

variable {unit : String}

-- The lines of an indented text, joined again. The unit may break lines itself.
theorem toList_indentWith_eq_intercalate (unit text : String) :
    (indentWith unit text).toList =
      ['\n'].intercalate ((lines text).map (unit.toList ++ ·)) := by
  rw [toList_indentWith_eq_hang, ← intercalate_lines text]
  exact append_hang_intercalate _ (lines_ne_nil text) fun _ => newline_notMem_of_mem_lines

-- A unit without line breaks stands in front of every line, and there are no other lines.
theorem lines_indentWith (hunit : '\n' ∉ unit.toList) (text : String) :
    lines (indentWith unit text) = (lines text).map (unit.toList ++ ·) := by
  rw [lines, toList_indentWith_eq_intercalate]
  apply List.splitOn_intercalate
  · intro padded hpadded
    obtain ⟨line, hline, rfl⟩ := List.mem_map.mp hpadded
    rw [List.mem_append, not_or]
    exact ⟨hunit, newline_notMem_of_mem_lines hline⟩
  · simpa using lines_ne_nil text

theorem lines_indentWith_iterate (hunit : '\n' ∉ unit.toList) (levels : Nat) (text : String) :
    lines ((indentWith unit)^[levels] text) =
      (lines text).map ((List.replicate levels unit.toList).flatten ++ ·) := by
  induction levels with
  | zero => simp
  | succ levels ih =>
    rw [Function.iterate_succ_apply', lines_indentWith hunit, ih, List.map_map]
    simp [Function.comp_def, List.replicate_succ]

theorem indentWith_indentWith (hunit : '\n' ∉ unit.toList) (outer text : String) :
    indentWith outer (indentWith unit text) = indentWith (outer ++ unit) text := by
  apply String.toList_inj.mp
  simp only [toList_indentWith_eq_hang, hang_append, hang_of_not_mem hunit, hang_hang hunit,
    String.toList_append, List.append_assoc]

theorem indentWith_append_newline (unit first second : String) :
    indentWith unit (first ++ "\n" ++ second) =
      indentWith unit first ++ "\n" ++ indentWith unit second := by
  apply String.toList_inj.mp
  simp [toList_indentWith_eq_hang]

theorem indentWith_injective (unit : String) : Function.Injective (indentWith unit) := by
  intro a b h
  have hchars := congrArg String.toList h
  rw [toList_indentWith_eq_hang, toList_indentWith_eq_hang] at hchars
  exact String.toList_inj.mp (hang_injective unit.toList (List.append_cancel_left hchars))

end IndentWith

-- Indenting a text level by level keeps its lines and puts one unit for each level in front of
-- them: levels add up, texts on lines of their own are indented one by one, and nothing is lost.
-- For the last two the unit may break lines itself.
theorem indentWith_composes :
    (∀ unit : String, '\n' ∉ unit.toList →
      (∀ (levels : Nat) (text : String),
        lines ((indentWith unit)^[levels] text) =
          (lines text).map fun line => (List.replicate levels unit.toList).flatten ++ line) ∧
      ∀ outer text : String,
        indentWith outer (indentWith unit text) = indentWith (outer ++ unit) text) ∧
    ∀ unit : String,
      (∀ first second : String, indentWith unit (first ++ "\n" ++ second) =
        indentWith unit first ++ "\n" ++ indentWith unit second) ∧
      Function.Injective (indentWith unit) := by
  refine ⟨fun unit hunit => ⟨?_, ?_⟩, fun unit => ⟨?_, ?_⟩⟩
  · exact lines_indentWith_iterate hunit
  · exact indentWith_indentWith hunit
  · exact indentWith_append_newline unit
  · exact indentWith_injective unit

-- An empty line in the middle and one at the end are indented like the others.
theorem indentWith_composes_emptyLines :
    '\n' ∉ "\t".toList ∧
      lines ((indentWith "\t")^[2] "a\n\nb\n") =
        ["\t\ta".toList, "\t\t".toList, "\t\tb".toList, "\t\t".toList] ∧
      indentWith "\n" (indentWith "\t" "a\n") = "\n\ta\n\n\t" := by
  have hunit : '\n' ∉ "\t".toList := by decide
  obtain ⟨hlines, hcompose⟩ := indentWith_composes.1 "\t" hunit
  refine ⟨hunit, ?_, ?_⟩
  · rw [hlines]
    rfl
  · rw [hcompose]
    apply String.toList_inj.mp
    rw [toList_indentWith]
    rfl

end Estree.Text
