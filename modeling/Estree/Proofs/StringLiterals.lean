import Estree.Json.Lexer
import Estree.Proofs.Nesting
import Estree.Proofs.Tokens
import Mathlib

namespace Estree

namespace Text

-- The characters that end a line of a program.
def lineTerminators : List Char :=
  ['\n', '\r', '\u2028', '\u2029']

-- The letters that stand for a character after a backslash.
def escapedLetters : List (Char × Char) :=
  [('\\', '\\'), ('\x27', '\x27'), ('n', '\n'), ('r', '\r')]

-- The character with the code that four hexadecimal digits write. Half of a pair of code units is
-- none.
def charOfDigits? (a b c d : Char) : Option Char := do
  let a ← Json.Lexer.hexDigit? a
  let b ← Json.Lexer.hexDigit? b
  let c ← Json.Lexer.hexDigit? c
  let d ← Json.Lexer.hexDigit? d
  let code := ((a * 16 + b) * 16 + c) * 16 + d
  if code.isValidChar then some (Char.ofNat code) else none

-- Reads the characters of a single-quoted literal up to its closing quote, with what follows it.
def readQuoted : List Char → Option (List Char × List Char)
  | [] => none
  | '\x27' :: chars => some ([], chars)
  | '\\' :: 'u' :: a :: b :: c :: d :: chars => do
    let value ← charOfDigits? a b c d
    let (values, rest) ← readQuoted chars
    return (value :: values, rest)
  | '\\' :: letter :: chars => do
    let value ← escapedLetters.lookup letter
    let (values, rest) ← readQuoted chars
    return (value :: values, rest)
  | c :: chars =>
    if c = '\\' ∨ c ∈ lineTerminators then
      none
    else do
      let (values, rest) ← readQuoted chars
      return (c :: values, rest)

-- Reads the single-quoted literal that a text begins with.
def readLiteral : List Char → Option (String × List Char)
  | '\x27' :: chars => (readQuoted chars).map fun (values, rest) => (String.ofList values, rest)
  | _ => none

-- An escaped character is read as the character, whatever stands behind it.
theorem readQuoted_escapeQuoted_append (c : Char) (chars : List Char) :
    readQuoted (escapeQuoted c ++ chars) =
      (readQuoted chars).map fun (values, rest) => (c :: values, rest) := by
  have hlineSeparator : charOfDigits? '2' '0' '2' '8' = some '\u2028' := by decide
  have hparagraphSeparator : charOfDigits? '2' '0' '2' '9' = some '\u2029' := by decide
  unfold escapeQuoted
  repeat' split
  all_goals
    simp_all [readQuoted, escapedLetters, lineTerminators, List.lookup, Option.map_eq_bind]

theorem readQuoted_flatMap_escapeQuoted (chars rest : List Char) :
    readQuoted (chars.flatMap escapeQuoted ++ '\x27' :: rest) = some (chars, rest) := by
  induction chars with
  | nil => simp [readQuoted]
  | cons c chars ih =>
    rw [List.flatMap_cons, List.append_assoc, readQuoted_escapeQuoted_append, ih, Option.map_some]

theorem readLiteral_quote_append (value : String) (rest : List Char) :
    readLiteral ((quote value).toList ++ rest) = some (value, rest) := by
  have hbody := readQuoted_flatMap_escapeQuoted value.toList rest
  simp [quote, readLiteral, hbody]

theorem escapeQuoted_avoids_lineTerminators (c : Char) :
    Avoids lineTerminators (escapeQuoted c) := by
  unfold escapeQuoted
  repeat' split
  all_goals simp_all [Avoids, lineTerminators]

theorem quote_avoids_lineTerminators (value : String) :
    Avoids lineTerminators (quote value).toList := by
  intro c hc
  simp only [quote, String.toList_ofList, List.mem_cons, List.mem_append, List.mem_flatMap,
    List.not_mem_nil, or_false] at hc
  rcases hc with rfl | ⟨escaped, -, hescaped⟩ | rfl
  · decide
  · exact escapeQuoted_avoids_lineTerminators escaped c hescaped
  · decide

theorem hanging_of_newline_notMem {text : String} (h : '\n' ∉ text.toList) (unit : String)
    (levels : Nat) : hanging unit levels text = text := by
  rw [hanging, hang_of_not_mem h, String.ofList_toList]

-- Indentation moves what stands around a literal, and leaves the literal as it is.
theorem indentWith_around_quote (unit before value after : String) :
    indentWith unit (before ++ quote value ++ after) =
      indentWith unit before ++ quote value ++ hanging unit 1 after := by
  simp only [indentWith_eq_hanging, hanging_append,
    hanging_of_newline_notMem (newline_not_mem_quote value), String.append_assoc]

end Text

open Text

namespace Form

-- The text that a construct denotes if it is a string literal or names a module.
def stringValue? {α : Type} : Form α → Option String
  | .literal (.string value) none => some value
  | .moduleSpecifier value => some value
  | _ => none

theorem stringValue?_map {α β : Type} (f : α → β) (form : Form α) :
    (form.map f).stringValue? = form.stringValue? := by
  cases form
  case literal value regex => cases value <;> cases regex <;> rfl
  all_goals rfl

end Form

namespace Printer

variable {printer : Printer}

-- What is printed on one line stands in the text of every node above it as it is.
theorem exists_of_mem_visited_of_newline_notMem {cursor other : Cursor}
    (hother : other ∈ cursor.visited) {text rendered : String} (h : printer.print cursor = .ok text)
    (hrendered : printer.print other = .ok rendered) (hline : '\n' ∉ rendered.toList) :
    ∃ before after, text = before ++ rendered ++ after := by
  induction cursor using Cursor.induction generalizing text with
  | step cursor ih =>
    rcases Cursor.mem_visited.mp hother with rfl | ⟨child, hchild, hbelow⟩
    · obtain rfl := Except.ok.inj (h.symm.trans hrendered)
      exact ⟨"", "", by simp⟩
    · have hmem := Form.mem_children_of_mem_printed hchild
      rw [← Form.map_snd_printed_markLevel] at hchild
      obtain ⟨⟨level, child⟩, hmark, rfl⟩ := List.mem_map.mp hchild
      obtain ⟨middle, hmiddle, front, back, rfl⟩ := exists_hanging_of_mem_markLevel h hmark
      obtain ⟨before, after, rfl⟩ := ih child hmem hbelow hmiddle
      refine ⟨front ++ hanging printer.options.indentUnit level before,
        hanging printer.options.indentUnit level after ++ back, ?_⟩
      simp only [hanging_append, hanging_of_newline_notMem hline, String.append_assoc]

theorem print_of_template_text {cursor : Cursor} {text : String}
    (h : printer.template cursor = .ok [.text text]) : printer.print cursor = .ok text := by
  have htext : Template.assemble printer.options [(.text text : Piece Cursor)] [] = text :=
    String.append_empty
  rw [print_eq, h]
  exact congrArg Except.ok htext

theorem print_of_stringValue? {cursor : Cursor} {value : String}
    (h : cursor.node.form.stringValue? = some value) :
    printer.print cursor = .ok (quote value) := by
  have hform : cursor.form.stringValue? = some value := by
    rwa [← Cursor.map_node_form, Form.stringValue?_map] at h
  apply print_of_template_text
  rw [template]
  unfold Form.stringValue? at hform
  split at hform <;> cases hform <;> rename_i heq <;> rw [heq] <;> rfl

end Printer

-- A quoted text is read back, and ends where it is meant to, whatever follows. It stands on one
-- line, so indentation leaves it as it is, and with it every string in the text of a tree.
theorem quote_readsBack :
    (∀ (value : String) (rest : List Char),
      readLiteral ((quote value).toList ++ rest) = some (value, rest)) ∧
    (∀ value : String, ∀ c ∈ (quote value).toList, c ∉ lineTerminators) ∧
    (∀ unit before value after : String,
      indentWith unit (before ++ quote value ++ after) =
        indentWith unit before ++ quote value ++ hanging unit 1 after) ∧
    ∀ (tree : Node) (options : PrintOptions) (text : String), tree.print options = .ok text →
      ∀ cursor ∈ (Cursor.root tree).visited, ∀ value : String,
        cursor.node.form.stringValue? = some value →
          ∃ before after : String, text = before ++ quote value ++ after ∧
            readLiteral (quote value ++ after).toList = some (value, after.toList) := by
  refine ⟨readLiteral_quote_append, quote_avoids_lineTerminators, indentWith_around_quote, ?_⟩
  intro tree options text hprint cursor hcursor value hvalue
  obtain ⟨before, after, htext⟩ := Printer.exists_of_mem_visited_of_newline_notMem hcursor hprint
    (Printer.print_of_stringValue? hvalue) (newline_not_mem_quote value)
  refine ⟨before, after, htext, ?_⟩
  rw [String.toList_append, readLiteral_quote_append]

end Estree
