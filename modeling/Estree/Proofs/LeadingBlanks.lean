import Estree.Node.Builders
import Estree.Proofs.Indentation
import Estree.Proofs.Positions
import Estree.Proofs.Templates
import Mathlib

namespace Estree

namespace Text

-- The characters that set a line off from the margin.
def isBlank (c : Char) : Bool :=
  c == ' ' || c == '\t'

-- A line from its first character on that is no blank.
def unindented (line : List Char) : List Char :=
  line.dropWhile isBlank

-- Two texts with as many lines and the same first line, whose other lines are the same but for the
-- blanks in front.
structure SameButIndents (a b : String) : Prop where
  length_eq : (lines a).length = (lines b).length
  first_eq : (lines a).head? = (lines b).head?
  rest_eq : (lines a).tail.map unindented = (lines b).tail.map unindented

-- The characters without the blanks in front of a line. `opening` says that nothing but blanks has
-- come on the line so far.
def flushFrom (opening : Bool) : List Char → List Char
  | [] => []
  | c :: chars =>
    if opening && isBlank c then flushFrom true chars else c :: flushFrom (c == '\n') chars

@[simp] theorem flushFrom_nil (opening : Bool) : flushFrom opening [] = [] := rfl

theorem flushFrom_cons (opening : Bool) (c : Char) (chars : List Char) :
    flushFrom opening (c :: chars) =
      if opening && isBlank c then flushFrom true chars else c :: flushFrom (c == '\n') chars :=
  rfl

-- The characters of a text without the blanks in front of its lines, the first line excepted.
def flush (text : String) : List Char :=
  flushFrom false text.toList

-- Whether a line is to be opened after some characters.
def opensAfter (opening : Bool) (chars : List Char) : Bool :=
  chars.getLast?.elim opening (· == '\n')

@[simp] theorem opensAfter_nil (opening : Bool) : opensAfter opening [] = opening := rfl

@[simp] theorem opensAfter_cons (opening : Bool) (c : Char) (chars : List Char) :
    opensAfter opening (c :: chars) = opensAfter (c == '\n') chars := by
  cases chars with
  | nil => rfl
  | cons d chars => simp [opensAfter, List.getLast?_cons]

theorem isBlank_newline : isBlank '\n' = false := rfl

-- Whether what comes later opens a line can be told from what is left of what came before.
theorem flushFrom_append (opening : Bool) (a b : List Char) :
    flushFrom opening (a ++ b) =
      flushFrom opening a ++ flushFrom (opensAfter opening (flushFrom opening a)) b := by
  induction a generalizing opening with
  | nil => rfl
  | cons c a ih =>
    rw [List.cons_append, flushFrom_cons, flushFrom_cons]
    split
    · rename_i h
      obtain rfl : opening = true := (Bool.and_eq_true_iff.mp h).1
      exact ih true
    · rw [ih, opensAfter_cons]
      rfl

theorem flushFrom_flushFrom (outer inner : Bool) (chars : List Char) :
    flushFrom outer (flushFrom inner chars) = flushFrom (outer || inner) chars := by
  induction chars generalizing outer inner with
  | nil => rfl
  | cons c chars ih =>
    by_cases hblank : isBlank c = true
    · cases inner <;> cases outer <;> simp [flushFrom_cons, hblank, ih]
    · cases inner <;> cases outer <;> simp [flushFrom_cons, hblank, ih]

theorem flushFrom_flush (opening : Bool) (text : String) :
    flushFrom opening (flush text) = flushFrom opening text.toList := by
  rw [flush, flushFrom_flushFrom, Bool.or_false]

theorem flushFrom_blanks {blanks : List Char} (h : ∀ c ∈ blanks, isBlank c = true)
    (chars : List Char) : flushFrom true (blanks ++ chars) = flushFrom true chars := by
  induction blanks with
  | nil => rfl
  | cons c blanks ih =>
    rw [List.cons_append, flushFrom_cons, h c (by simp)]
    exact ih fun d hd => h d (by simp [hd])

-- Blanks that are put in front of lines are taken away again.
theorem flushFrom_hang {blanks : List Char} (h : ∀ c ∈ blanks, isBlank c = true) (opening : Bool)
    (chars : List Char) : flushFrom opening (hang blanks chars) = flushFrom opening chars := by
  induction chars generalizing opening with
  | nil => rfl
  | cons c chars ih =>
    by_cases hc : c = '\n'
    · subst hc
      simp [flushFrom_cons, isBlank_newline, flushFrom_blanks h, ih]
    · rw [hang_cons_of_ne hc, flushFrom_cons, flushFrom_cons, ih, ih]

theorem mem_flushFrom {c : Char} (h : isBlank c = false) (opening : Bool) (chars : List Char) :
    c ∈ flushFrom opening chars ↔ c ∈ chars := by
  induction chars generalizing opening with
  | nil => rfl
  | cons d chars ih =>
    rw [flushFrom_cons]
    split
    · rename_i hd
      have hne : c ≠ d := by
        rintro rfl
        simp [h] at hd
      simp [ih, hne]
    · simp [ih]

-- A character that is neither a blank nor a line break stays the last one.
theorem getLast?_flushFrom {c : Char} (hblank : isBlank c = false) (hbreak : c ≠ '\n')
    (opening : Bool) (chars : List Char) :
    (flushFrom opening chars).getLast? = some c ↔ chars.getLast? = some c := by
  rcases List.eq_nil_or_concat chars with rfl | ⟨front, last, rfl⟩
  · rfl
  · rw [List.concat_eq_append, flushFrom_append, flushFrom_cons, List.getLast?_concat]
    split
    · rename_i hdropped
      obtain ⟨hopens, hlast⟩ := Bool.and_eq_true_iff.mp hdropped
      have hne : last ≠ c := by
        rintro rfl
        simp [hblank] at hlast
      constructor
      · intro hfront
        rw [flushFrom_nil, List.append_nil] at hfront
        simp [opensAfter, hfront, hbreak] at hopens
      · simp [hne]
    · simp

-- The lines of flush characters are the lines without the blanks in front. Only where no line is
-- being opened does the first line keep its own.
theorem splitOn_flushFrom (chars : List Char) :
    (flushFrom true chars).splitOn '\n' = (chars.splitOn '\n').map unindented ∧
      (flushFrom false chars).splitOn '\n' =
        (chars.splitOn '\n').headD [] :: (chars.splitOn '\n').tail.map unindented := by
  induction chars with
  | nil => simp [unindented]
  | cons c chars ih =>
    obtain ⟨first, rest, hlines⟩ := List.exists_cons_of_ne_nil (List.splitOn_ne_nil '\n' chars)
    rw [hlines] at ih
    by_cases hc : c = '\n'
    · subst hc
      simp [flushFrom_cons, isBlank_newline, List.splitOn_cons_eq_if_modifyHead, ih, hlines,
        unindented]
    · have hbreak : (c == '\n') = false := beq_false_of_ne hc
      by_cases hblank : isBlank c = true
      · simp [flushFrom_cons, hblank, hbreak, List.splitOn_cons_eq_if_modifyHead, ih, hlines,
          unindented]
      · simp [flushFrom_cons, hblank, hbreak, List.splitOn_cons_eq_if_modifyHead, ih, hlines,
          unindented]

theorem lines_flush (text : String) :
    (flush text).splitOn '\n' = (lines text).headD [] :: (lines text).tail.map unindented :=
  (splitOn_flushFrom text.toList).2

-- Texts that are the same when flush differ in the blanks in front of their lines at most.
theorem SameButIndents.of_flush_eq {a b : String} (h : flush a = flush b) : SameButIndents a b := by
  obtain ⟨first, rest, hfirst⟩ := List.exists_cons_of_ne_nil (List.splitOn_ne_nil '\n' a.toList)
  obtain ⟨other, others, hother⟩ := List.exists_cons_of_ne_nil (List.splitOn_ne_nil '\n' b.toList)
  have hlines := congrArg (List.splitOn '\n') h
  rw [lines_flush, lines_flush, lines, lines, hfirst, hother] at hlines
  obtain ⟨hhead, htail⟩ := List.cons.inj hlines
  refine ⟨?_, ?_, ?_⟩ <;> rw [lines, lines, hfirst, hother]
  · have hlength := congrArg List.length htail
    simpa using hlength
  · simpa using hhead
  · exact htail

theorem flush_append_congr {a a' b b' : String} (ha : flush a = flush a')
    (hb : flush b = flush b') : flush (a ++ b) = flush (a' ++ b') := by
  have happend (a b : String) :
      flush (a ++ b) = flush a ++ flushFrom (opensAfter false (flush a)) (flush b) := by
    rw [flushFrom_flush, flush, String.toList_append, flushFrom_append]
    rfl
  rw [happend, happend, ha, hb]

theorem flush_intercalate_congr {separator separator' : String} {texts texts' : List String}
    (hseparator : flush separator = flush separator') (h : texts.map flush = texts'.map flush) :
    flush (separator.intercalate texts) = flush (separator'.intercalate texts') := by
  induction texts generalizing texts' with
  | nil => simp_all
  | cons text texts ih =>
    obtain ⟨text', texts', rfl⟩ : ∃ text' rest, texts' = text' :: rest := by
      cases texts' <;> simp_all
    obtain ⟨hfirst, hrest⟩ := List.cons.inj h
    cases texts with
    | nil =>
      obtain rfl : texts' = [] := by simpa using hrest.symm
      simpa using hfirst
    | cons second texts =>
      obtain ⟨second', texts', rfl⟩ : ∃ second' rest, texts' = second' :: rest := by
        cases texts' <;> simp_all
      rw [String.intercalate_cons_cons, String.intercalate_cons_cons]
      exact flush_append_congr (flush_append_congr hfirst hseparator) (ih hrest)

-- A text on lines of its own is the same whatever blanks it is indented by.
theorem flush_newline_indentWith {unit : String} (h : ∀ c ∈ unit.toList, isBlank c = true)
    (text : String) :
    flush ("\n" ++ indentWith unit text) = '\n' :: flushFrom true (flush text) := by
  rw [flushFrom_flush, flush, String.toList_append, toList_indentWith_eq_hang]
  change flushFrom false ('\n' :: (unit.toList ++ hang unit.toList text.toList)) = _
  rw [flushFrom_cons, isBlank_newline]
  simp [flushFrom_blanks h, flushFrom_hang h]

theorem flush_append_blanks {blanks : String} (h : ∀ c ∈ blanks.toList, isBlank c = true) :
    flush (",\n" ++ blanks) = [',', '\n'] := by
  rw [flush, String.toList_append, flushFrom_append]
  change [',', '\n'] ++ flushFrom true blanks.toList = _
  have hblanks := flushFrom_blanks h []
  rw [List.append_nil] at hblanks
  rw [hblanks]
  rfl

end Text

open Text

-- Whether a printer puts nothing but blanks in front of lines.
structure PrintOptions.IsBlank (options : PrintOptions) : Prop where
  indentUnit : ∀ c ∈ options.indentUnit.toList, isBlank c = true
  continuationIndent : ∀ c ∈ options.continuationIndent.toList, isBlank c = true

-- Outcomes that look alike from one point of view look alike from any that follows from it.
theorem map_eq_map_of_map_eq {ε α β γ : Type} {a b : Except ε α} {f : α → β} {g g' : α → γ}
    (h : f <$> a = f <$> b) (hg : ∀ x y, f x = f y → g x = g' y) : g <$> a = g' <$> b := by
  cases a with
  | error e =>
    cases b with
    | error e' =>
      obtain rfl : e = e' := Except.error.inj h
      rfl
    | ok y => cases h
  | ok x =>
    cases b with
    | error e' => cases h
    | ok y => exact congrArg Except.ok (hg x y (Except.ok.inj h))

section Layout

variable {first second : PrintOptions} (hfirst : first.IsBlank) (hsecond : second.IsBlank)

namespace Arrangement

-- Whether a text spans several lines does not depend on the blanks in front of them.
theorem any_contains_newline_congr {texts texts' : List String}
    (h : texts.map flush = texts'.map flush) :
    (texts.any fun text => text.contains '\n') = texts'.any fun text => text.contains '\n' := by
  have hany (texts : List String) : (texts.any fun text => text.contains '\n') =
      (texts.map flush).any fun chars => decide ('\n' ∈ chars) := by
    rw [List.any_map]
    congr 1
    funext text
    simp [flush, mem_flushFrom isBlank_newline]
  rw [hany, hany, h]

theorem beforeCondition_congr {body body' : String} (h : flush body = flush body') :
    beforeCondition body = beforeCondition body' := by
  have hbrace (body : String) :
      body.back? = some '\x7d' ↔ (flush body).getLast? = some '\x7d' := by
    rw [flush, getLast?_flushFrom (by decide) (by decide), String.back?_eq]
  simp only [beforeCondition, hbrace, h]

include hfirst hsecond

theorem flush_write {texts texts' : List String} (h : texts.map flush = texts'.map flush)
    (arrangement : Arrangement) :
    flush (arrangement.write first texts) = flush (arrangement.write second texts') := by
  cases arrangement with
  | separatedBy separator => exact flush_intercalate_congr rfl h
  | nested =>
    rw [write, write, flush_newline_indentWith hfirst.indentUnit,
      flush_newline_indentWith hsecond.indentUnit, flush_intercalate_congr rfl h]
  | declarators =>
    apply flush_intercalate_congr _ h
    rw [declaratorSeparator, declaratorSeparator, any_contains_newline_congr h]
    split
    · rw [flush_append_blanks hfirst.continuationIndent,
        flush_append_blanks hsecond.continuationIndent]
    · rfl
  | loopBody =>
    have hbody : flush (String.join texts) = flush (String.join texts') := by
      rw [join_eq_intercalate, join_eq_intercalate]
      exact flush_intercalate_congr rfl h
    rw [write, write, beforeCondition_congr hbody]
    exact flush_append_congr hbody rfl

end Arrangement

include hfirst hsecond

theorem Template.flush_assemble {α : Type} (template : Template α) {texts texts' : List String}
    (h : texts.map flush = texts'.map flush) :
    flush (template.assemble first texts) = flush (template.assemble second texts') := by
  induction template generalizing texts texts' with
  | nil => rfl
  | cons piece template ih =>
    cases piece with
    | text fixed => exact flush_append_congr rfl (ih h)
    | parts arrangement children =>
      have htake : (texts.take children.length).map flush =
          (texts'.take children.length).map flush := by
        rw [List.map_take, List.map_take, h]
      have hdrop : (texts.drop children.length).map flush =
          (texts'.drop children.length).map flush := by
        rw [List.map_drop, List.map_drop, h]
      exact flush_append_congr (arrangement.flush_write hfirst hsecond htake) (ih hdrop)

-- Two printers that take the same nodes for parents and differ in blanks only write the same flush
-- text, or refuse the same node.
theorem Printer.flush_print (parents : ParentLookup) (cursor : Cursor) :
    flush <$> Printer.print ⟨parents, first⟩ cursor =
      flush <$> Printer.print ⟨parents, second⟩ cursor := by
  induction cursor using Cursor.induction with
  | step cursor ih =>
    -- the template is found without looking at the options
    have hsame : template ⟨parents, second⟩ cursor = template ⟨parents, first⟩ cursor := rfl
    rw [print_eq, print_eq, hsame]
    cases htemplate : template ⟨parents, first⟩ cursor with
    | error refusal => rw [error_bind, error_bind]
    | ok found =>
      have htexts : List.map flush <$> found.parts.mapM (print ⟨parents, first⟩) =
          List.map flush <$> found.parts.mapM (print ⟨parents, second⟩) := by
        rw [← Form.mapM_list_map, ← Form.mapM_list_map]
        apply Form.mapM_list_congr
        intro child hchild
        rw [Form.parts_template htemplate] at hchild
        exact ih child (Form.mem_children_of_mem_printed hchild)
      rw [ok_bind, ok_bind, bind_pure_comp, bind_pure_comp, Functor.map_map, Functor.map_map]
      exact map_eq_map_of_map_eq htexts fun _ _ h => found.flush_assemble hfirst hsecond h

end Layout

-- Whatever blanks a printer indents with, it writes the same text but for the blanks in front of
-- lines, or refuses the same tree for the same reason.
theorem print_sameButIndents (tree : Node) {first second : PrintOptions} (hfirst : first.IsBlank)
    (hsecond : second.IsBlank) :
    (∃ refusal, tree.print first = .error refusal ∧ tree.print second = .error refusal) ∨
      ∃ a b, tree.print first = .ok a ∧ tree.print second = .ok b ∧ SameButIndents a b := by
  have hflush : flush <$> tree.print first = flush <$> tree.print second :=
    Printer.flush_print hfirst hsecond (.ofTable (.build tree)) (.root tree)
  cases ha : tree.print first with
  | error refusal =>
    cases hb : tree.print second with
    | error other =>
      rw [ha, hb] at hflush
      obtain rfl : refusal = other := Except.error.inj hflush
      exact .inl ⟨refusal, rfl, rfl⟩
    | ok b =>
      rw [ha, hb] at hflush
      cases hflush
  | ok a =>
    cases hb : tree.print second with
    | error other =>
      rw [ha, hb] at hflush
      cases hflush
    | ok b =>
      rw [ha, hb] at hflush
      exact .inr ⟨a, b, rfl, rfl, .of_flush_eq (Except.ok.inj hflush)⟩

-- Declarators of which one spans several lines.
def wrapped : Node :=
  .declaration .var
    [.declarator "f" (some ⟨.arrowFunctionExpression [] (.block [.statement .this]) false⟩),
      .declarator "x" none]

def tabbed : PrintOptions := ⟨"\t", " \t"⟩

def unspaced : PrintOptions := ⟨"", ""⟩

theorem print_sameButIndents_wrapped :
    (tabbed.IsBlank ∧ wrapped.print tabbed = .ok "var f = () => \x7b\n\tthis;\n\x7d,\n \tx;") ∧
    (unspaced.IsBlank ∧ wrapped.print unspaced = .ok "var f = () => \x7b\nthis;\n\x7d,\nx;") ∧
    SameButIndents "var f = () => \x7b\n\tthis;\n\x7d,\n \tx;"
      "var f = () => \x7b\nthis;\n\x7d,\nx;" := by
  have htabbed : tabbed.IsBlank := ⟨List.all_eq_true.mp rfl, List.all_eq_true.mp rfl⟩
  have hunspaced : unspaced.IsBlank := ⟨List.all_eq_true.mp rfl, List.all_eq_true.mp rfl⟩
  have hfirst : wrapped.print tabbed = .ok "var f = () => \x7b\n\tthis;\n\x7d,\n \tx;" := by cbv
  have hsecond : wrapped.print unspaced = .ok "var f = () => \x7b\nthis;\n\x7d,\nx;" := by cbv
  refine ⟨⟨htabbed, hfirst⟩, ⟨hunspaced, hsecond⟩, ?_⟩
  rcases print_sameButIndents wrapped htabbed hunspaced with
    ⟨refusal, hrefused, -⟩ | ⟨a, b, ha, hb, hsame⟩
  · rw [hfirst] at hrefused
    cases hrefused
  · obtain rfl := Except.ok.inj (hfirst.symm.trans ha)
    obtain rfl := Except.ok.inj (hsecond.symm.trans hb)
    exact hsame

end Estree
