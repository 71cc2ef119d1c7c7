import Estree.Proofs.Nesting
import Estree.Proofs.Tokens

namespace Estree

namespace Text

-- The bracket that closes another.
def closing? (c : Char) : Option Char :=
  if c = '(' then some ')'
  else if c = '[' then some ']'
  else if c = '\x7b' then some '\x7d'
  else none

def isClosing (c : Char) : Bool :=
  c = ')' || c = ']' || c = '\x7d'

-- Where a scan of brackets stands: outside of string literals, inside one, or inside one behind a
-- backslash. `due` are the brackets still to be closed, the innermost first.
inductive BracketScan where
  | code (due : List Char)
  | quoted (due : List Char)
  | escaped (due : List Char)
  deriving DecidableEq

namespace BracketScan

-- Brackets count outside of string literals only, and one that closes must be the one that is due.
def next (state : BracketScan) (c : Char) : Option BracketScan :=
  match state with
  | .code due =>
    if c = '\x27' then some (.quoted due)
    else if isClosing c then if due.head? = some c then some (.code due.tail) else none
    else some (.code ((closing? c).toList ++ due))
  | .quoted due =>
    some (if c = '\x27' then .code due else if c = '\\' then .escaped due else .quoted due)
  | .escaped due => some (.quoted due)

def run (state : BracketScan) (chars : List Char) : Option BracketScan :=
  chars.foldlM next state

@[simp] theorem run_nil (state : BracketScan) : state.run [] = some state := rfl

@[simp] theorem run_cons (state : BracketScan) (c : Char) (chars : List Char) :
    state.run (c :: chars) = (state.next c).bind fun following => following.run chars := by
  simp [run]

theorem run_append (state : BracketScan) (a b : List Char) :
    state.run (a ++ b) = (state.run a).bind fun following => following.run b := by
  simp [run]

end BracketScan

-- Whether the brackets of a text outside of its string literals match, and no literal is left open.
def IsBalanced (text : String) : Prop :=
  BracketScan.run (.code []) text.toList = some (.code [])

instance (text : String) : Decidable (IsBalanced text) :=
  inferInstanceAs (Decidable (_ = _))

-- The characters that a scan of brackets takes notice of outside of string literals.
def delimiters : List Char :=
  ['(', ')', '[', ']', '\x7b', '\x7d', '\x27']

def IsPlain (chars : List Char) : Prop :=
  Avoids delimiters chars

instance (chars : List Char) : Decidable (IsPlain chars) :=
  inferInstanceAs (Decidable (Avoids delimiters chars))

-- A text that leaves a scan of brackets where it was, also with its lines moved.
def IsNeutral (text : List Char) : Prop :=
  ∀ padding, IsPlain padding → ∀ due,
    BracketScan.run (.code due) (hang padding text) = some (.code due)

open BracketScan

theorem next_plain {c : Char} (h : c ∉ delimiters) (due : List Char) :
    next (.code due) c = some (.code due) := by
  simp only [delimiters, List.mem_cons, List.not_mem_nil, not_or] at h
  simp [next, isClosing, closing?, h]

theorem run_plain {chars : List Char} (h : IsPlain chars) (due : List Char) :
    run (.code due) chars = some (.code due) := by
  induction chars with
  | nil => rfl
  | cons c chars ih =>
    rw [IsPlain, Avoids, List.forall_mem_cons] at h
    rw [run_cons, next_plain h.1, Option.bind_some, ih h.2]

theorem IsPlain.append {a b : List Char} (ha : IsPlain a) (hb : IsPlain b) : IsPlain (a ++ b) :=
  List.forall_mem_append.mpr ⟨ha, hb⟩

theorem IsPlain.hang {padding chars : List Char} (hpadding : IsPlain padding)
    (h : IsPlain chars) : IsPlain (hang padding chars) := by
  intro c hc
  obtain ⟨d, hd, hc⟩ := List.mem_flatMap.mp hc
  split at hc
  · rcases List.mem_cons.mp hc with rfl | hc
    · exact h _ hd
    · exact hpadding c hc
  · rw [List.mem_singleton.mp hc]
    exact h d hd

theorem IsNeutral.isBalanced {text : String} (h : IsNeutral text.toList) : IsBalanced text := by
  have hrun := h [] nofun []
  rwa [hang_nil_padding] at hrun

theorem isNeutral_of_isPlain {text : List Char} (h : IsPlain text) : IsNeutral text :=
  fun _ hpadding due => run_plain (hpadding.hang h) due

theorem IsNeutral.append {a b : List Char} (ha : IsNeutral a) (hb : IsNeutral b) :
    IsNeutral (a ++ b) := by
  intro padding hpadding due
  rw [hang_append, run_append, ha padding hpadding, Option.bind_some, hb padding hpadding]

theorem IsNeutral.intercalate {separator : List Char} (hseparator : IsNeutral separator)
    {texts : List (List Char)} (h : ∀ text ∈ texts, IsNeutral text) :
    IsNeutral (separator.intercalate texts) := by
  induction texts with
  | nil => exact isNeutral_of_isPlain nofun
  | cons text texts ih =>
    rw [List.forall_mem_cons] at h
    cases texts with
    | nil => simpa using h.1
    | cons next texts =>
      rw [List.intercalate_cons_cons]
      exact (h.1.append hseparator).append (ih h.2)

-- Moving a text twice, with paddings that may break lines themselves.
theorem hang_hang_eq (outer inner chars : List Char) :
    hang outer (hang inner chars) = hang (outer ++ hang outer inner) chars := by
  induction chars with
  | nil => rfl
  | cons c chars ih =>
    by_cases hc : c = '\n'
    · subst hc
      simp [ih]
    · rw [hang_cons_of_ne hc, hang_cons_of_ne hc, hang_cons_of_ne hc, ih]

theorem IsNeutral.hang {text unit : List Char} (h : IsNeutral text) (hunit : IsPlain unit) :
    IsNeutral (hang unit text) := by
  intro padding hpadding due
  rw [hang_hang_eq]
  exact h _ (hpadding.append (hpadding.hang hunit)) due

-- The escapes of a string literal keep the scan inside of it.
theorem run_flatMap_escapeQuoted (due chars : List Char) :
    run (.quoted due) (chars.flatMap escapeQuoted) = some (.quoted due) := by
  induction chars with
  | nil => rfl
  | cons c chars ih =>
    rw [List.flatMap_cons, run_append]
    have hescape : run (.quoted due) (escapeQuoted c) = some (.quoted due) := by
      unfold escapeQuoted
      repeat' split
      all_goals simp_all [next]
    rw [hescape, Option.bind_some, ih]

-- A string literal has no line breaks, so nothing is put into it when lines are moved.
theorem isNeutral_quote (text : String) : IsNeutral (quote text).toList := by
  intro padding _ due
  rw [hang_of_not_mem (newline_not_mem_quote text), quote, String.toList_ofList, run_cons]
  have hopen : next (.code due) '\x27' = some (.quoted due) := rfl
  rw [hopen, Option.bind_some, run_append, run_flatMap_escapeQuoted]
  rfl

-- Without quotes a scan stays outside of string literals, wherever the lines are moved.
theorem run_hang_of_unquoted {padding chars : List Char} (hpadding : IsPlain padding)
    (h : ∀ c ∈ chars, c ≠ '\x27') (due : List Char) :
    run (.code due) (hang padding chars) = run (.code due) chars ∧
      ∀ state, run (.code due) chars = some state → ∃ others, state = .code others := by
  induction chars generalizing due with
  | nil =>
    refine ⟨rfl, ?_⟩
    rintro state ⟨⟩
    exact ⟨due, rfl⟩
  | cons c chars ih =>
    rw [List.forall_mem_cons] at h
    by_cases hc : c = '\n'
    · subst hc
      have hnext : next (.code due) '\n' = some (.code due) := rfl
      rw [hang_newline, List.cons_append, run_cons, run_cons, hnext, Option.bind_some,
        Option.bind_some, run_append, run_plain hpadding, Option.bind_some]
      exact ih h.2 due
    · rw [hang_cons_of_ne hc, run_cons, run_cons]
      cases hnext : next (.code due) c with
      | none => exact ⟨rfl, nofun⟩
      | some state =>
        obtain ⟨others, rfl⟩ : ∃ others, state = .code others := by
          simp only [next, if_neg h.1] at hnext
          split at hnext
          · split at hnext
            · exact ⟨_, (Option.some.inj hnext).symm⟩
            · cases hnext
          · exact ⟨_, (Option.some.inj hnext).symm⟩
        exact ih h.2 others

end Text

open Text BracketScan

variable {α β : Type}

namespace Arrangement

-- Whether nothing but plain text is put between parts.
def isPlain : Arrangement → Bool
  | separatedBy separator => decide (IsPlain separator.toList)
  | nested | declarators | loopBody => true

theorem isPlain_nothing : (separatedBy "").isPlain = true := rfl

end Arrangement

namespace Piece

-- Whether a piece opens no string literal of its own.
def isUnquoted : Piece α → Bool
  | .text fixed => fixed.toList.all (· != '\x27')
  | .parts arrangement _ => arrangement.isPlain

end Piece

namespace Template

-- The fixed text of a template.
def skeleton (template : Template α) : List Char :=
  template.flatMap fun
    | .text fixed => fixed.toList
    | .parts _ _ => []

@[simp] theorem skeleton_text (fixed : String) (template : Template α) :
    skeleton (.text fixed :: template) = fixed.toList ++ skeleton template := rfl

@[simp] theorem skeleton_parts (arrangement : Arrangement) (children : List α)
    (template : Template α) : skeleton (.parts arrangement children :: template) =
      skeleton template := rfl

end Template

-- Whether the options put nothing but plain text in front of lines.
structure PrintOptions.IsPlain (options : PrintOptions) : Prop where
  indentUnit : Text.IsPlain options.indentUnit.toList
  continuationIndent : Text.IsPlain options.continuationIndent.toList

section Layout

variable {options : PrintOptions} (hoptions : options.IsPlain)

include hoptions

namespace Arrangement

theorem isPlain_declaratorSeparator (texts : List String) :
    Text.IsPlain (declaratorSeparator options texts).toList := by
  unfold declaratorSeparator
  split
  · rw [String.toList_append]
    exact IsPlain.append (by decide) hoptions.continuationIndent
  · decide

theorem isNeutral_write {arrangement : Arrangement} (harrangement : arrangement.isPlain = true)
    {texts : List String} (h : ∀ text ∈ texts, IsNeutral text.toList) :
    IsNeutral (arrangement.write options texts).toList := by
  have hchars : ∀ chars ∈ texts.map String.toList, IsNeutral chars := by simpa using h
  have hjoined {separator : String} (hseparator : Text.IsPlain separator.toList) :
      IsNeutral (separator.intercalate texts).toList := by
    rw [String.toList_intercalate]
    exact (isNeutral_of_isPlain hseparator).intercalate hchars
  cases arrangement with
  | separatedBy separator => exact hjoined (of_decide_eq_true harrangement)
  | nested =>
    rw [write, String.toList_append, toList_indentWith_eq_hang]
    have hunit := isNeutral_of_isPlain hoptions.indentUnit
    have hnewline : IsNeutral "\n".toList := isNeutral_of_isPlain (by decide)
    exact hnewline.append (hunit.append ((hjoined (by decide)).hang hoptions.indentUnit))
  | declarators => exact hjoined (isPlain_declaratorSeparator hoptions texts)
  | loopBody =>
    have hcondition (body : String) : Text.IsPlain (beforeCondition body).toList := by
      unfold beforeCondition
      split <;> decide
    rw [write, String.toList_append, join_eq_intercalate]
    exact (hjoined (by decide)).append (isNeutral_of_isPlain (hcondition _))

end Arrangement

namespace Template

-- The parts of a template are passed over by a scan of brackets.
theorem run_assemble {template : Template α} (htemplate : template.all Piece.isUnquoted = true)
    {texts : List String} (h : ∀ text ∈ texts, IsNeutral text.toList) {padding : List Char}
    (hpadding : Text.IsPlain padding) (due : List Char) :
    run (.code due) (hang padding (template.assemble options texts).toList) =
      run (.code due) template.skeleton := by
  induction template generalizing texts due with
  | nil => rfl
  | cons piece template ih =>
    rw [List.all_cons, Bool.and_eq_true] at htemplate
    cases piece with
    | text fixed =>
      have hfixed : ∀ c ∈ fixed.toList, c ≠ '\x27' := by
        simpa [Piece.isUnquoted] using htemplate.1
      obtain ⟨hhang, hcode⟩ := run_hang_of_unquoted hpadding hfixed due
      rw [assemble, skeleton_text, String.toList_append, hang_append, run_append, run_append, hhang]
      cases hrun : run (.code due) fixed.toList with
      | none => rfl
      | some state =>
        obtain ⟨others, rfl⟩ := hcode state hrun
        exact ih htemplate.2 h others
    | parts arrangement children =>
      have htake : ∀ text ∈ texts.take children.length, IsNeutral text.toList :=
        fun text htext => h text (List.mem_of_mem_take htext)
      have hdrop : ∀ text ∈ texts.drop children.length, IsNeutral text.toList :=
        fun text htext => h text (List.mem_of_mem_drop htext)
      have hwrite := Arrangement.isNeutral_write hoptions htemplate.1 htake padding hpadding due
      rw [assemble, skeleton_parts, String.toList_append, hang_append, run_append, hwrite]
      exact ih htemplate.2 hdrop due

end Template

end Layout

namespace Template

-- A template whose fixed text closes all brackets that it opens.
structure IsBalanced (template : Template α) : Prop where
  unquoted : template.all Piece.isUnquoted = true
  skeleton : ∀ due, run (.code due) template.skeleton = some (.code due)

-- Plain text opens no brackets, and none are closed by it.
theorem isBalanced_of_isPlain {template : Template α}
    (htexts : ∀ fixed, .text fixed ∈ template → IsPlain fixed.toList)
    (hparts : ∀ arrangement children, .parts arrangement children ∈ template →
      arrangement.isPlain = true) : template.IsBalanced := by
  refine ⟨?_, fun due => run_plain ?_ due⟩
  · rw [List.all_eq_true]
    intro piece hpiece
    cases piece with
    | text fixed =>
      have hunquoted : ∀ c ∈ fixed.toList, c ≠ '\x27' := by
        rintro c hc rfl
        exact htexts fixed hpiece _ hc (by decide)
      simpa [Piece.isUnquoted] using hunquoted
    | parts arrangement children => exact hparts arrangement children hpiece
  · intro c hc
    obtain ⟨piece, hpiece, hc⟩ := List.mem_flatMap.mp hc
    cases piece with
    | text fixed => exact htexts fixed hpiece c hc
    | parts arrangement children => cases hc

end Template

namespace Form

-- The free text of a construct outside of string literals.
def words : Form α → List String
  | .identifier name => [name]
  | .literal _ (some regex) => [regex.pattern, regex.flags]
  | .binaryExpression operator _ _ | .logicalExpression operator _ _ => [operator]
  | .assignmentExpression operator _ _ => [operator]
  | .unaryExpression operator _ _ | .updateExpression operator _ _ => [operator]
  | _ => []

theorem words_map (f : α → β) (form : Form α) : (form.map f).words = form.words := by
  cases form
  case literal value regex => cases regex <;> rfl
  all_goals rfl

-- Whether a construct is a word or a literal, and so written without brackets of its own.
def isAtom : Form α → Bool
  | .identifier _ | .literal _ _ | .moduleSpecifier _ => true
  | _ => false

theorem isBalanced_template {inLoopHead : Bool} {form : Form α} {template : Template α}
    (h : form.template inLoopHead = .ok template) (hatom : form.isAtom = false)
    (hwords : ∀ word ∈ form.words, IsPlain word.toList) : template.IsBalanced := by
  have hspace : IsPlain " ".toList := by decide
  cases form
  case identifier | literal | moduleSpecifier => cases hatom
  case unmodeled => cases h
  case binaryExpression operator left right | logicalExpression operator left right
      | assignmentExpression operator left right =>
    have hoperator : IsPlain operator.toList := hwords operator (by simp [words])
    have hspaced : IsPlain (" " ++ operator ++ " ").toList := by
      simpa using (hspace.append hoperator).append hspace
    cases h
    exact Template.isBalanced_of_isPlain (by simpa [Piece.part] using hspaced)
      (by simp [Piece.part, or_imp, forall_and, Arrangement.isPlain_nothing])
  case unaryExpression operator argument leading =>
    have hoperator : IsPlain operator.toList := hwords operator (by simp [words])
    have hafter : IsPlain (operator ++ afterOperator operator).toList := by
      unfold afterOperator
      split
      · simpa using hoperator.append hspace
      · simpa using hoperator
    cases h
    exact Template.isBalanced_of_isPlain (by simpa [Piece.part] using hafter)
      (by simp [Piece.part, Arrangement.isPlain_nothing])
  case updateExpression operator argument leading =>
    have hoperator : IsPlain operator.toList := hwords operator (by simp [words])
    cases leading <;> cases h <;>
      exact Template.isBalanced_of_isPlain (by simpa [Piece.part] using hoperator)
        (by simp [Piece.part, Arrangement.isPlain_nothing])
  -- these are written in more than one way
  case blockStatement body => cases body <;> cases h <;> exact ⟨rfl, fun _ => rfl⟩
  case returnStatement part | breakStatement part | continueStatement part =>
    cases part <;> cases h <;> exact ⟨rfl, fun _ => rfl⟩
  case variableDeclaration kind declarations =>
    cases kind <;> cases inLoopHead <;> cases h <;> exact ⟨rfl, fun _ => rfl⟩
  case variableDeclarator id part | importSpecifier id part | exportSpecifier id part =>
    cases part <;> cases h <;> exact ⟨rfl, fun _ => rfl⟩
  case ifStatement test consequent alternate =>
    cases alternate <;> cases h
    exact ⟨rfl, fun _ => rfl⟩
  case forStatement init test update body =>
    cases init <;> cases test <;> cases update <;> cases h <;> exact ⟨rfl, fun _ => rfl⟩
  case forInStatement left right body each => cases each <;> cases h <;> exact ⟨rfl, fun _ => rfl⟩
  case tryStatement block handler finalizer =>
    cases handler <;> cases finalizer <;> cases h <;> exact ⟨rfl, fun _ => rfl⟩
  case catchClause param guard body =>
    cases param <;> cases guard <;> cases h <;> exact ⟨rfl, fun _ => rfl⟩
  case switchStatement discriminant cases =>
    cases cases <;> cases h <;> exact ⟨rfl, fun _ => rfl⟩
  case switchCase test consequent =>
    rcases consequent with _ | ⟨only, _ | ⟨next, others⟩⟩ <;> cases test <;> cases h <;>
      exact ⟨rfl, fun _ => rfl⟩
  case functionDeclaration id params body generator async
      | functionExpression id params body generator async =>
    cases id <;> cases generator <;> cases async <;> cases h <;> exact ⟨rfl, fun _ => rfl⟩
  case arrowFunctionExpression params body async =>
    rcases params with _ | ⟨only, _ | ⟨next, others⟩⟩ <;> cases async <;> cases h <;>
      exact ⟨rfl, fun _ => rfl⟩
  case yieldExpression argument star | awaitExpression argument star =>
    cases argument <;> cases star <;> cases h <;> exact ⟨rfl, fun _ => rfl⟩
  case memberExpression object member computed =>
    cases computed <;> cases h <;> exact ⟨rfl, fun _ => rfl⟩
  case newExpression callee arguments =>
    cases arguments <;> cases h <;> exact ⟨rfl, fun _ => rfl⟩
  case property key value kind method =>
    cases kind <;> cases method <;> cases h
    exact ⟨rfl, fun _ => rfl⟩
  case moduleDeclaration id source body =>
    cases source <;> cases body <;> cases h <;> exact ⟨rfl, fun _ => rfl⟩
  all_goals
    cases h
    exact ⟨rfl, fun _ => rfl⟩

end Form

namespace Decimal

-- The characters of numerals: digits, a point, an exponent with its sign, and the letters of the
-- names of what is not finite.
def isNumeralChar (c : Char) : Bool :=
  c.isDigit || c ∈ ".e+-NaInfity".toList

def IsNumeric (chars : List Char) : Prop :=
  ∀ c ∈ chars, isNumeralChar c = true

theorem IsNumeric.append {a b : List Char} (ha : IsNumeric a) (hb : IsNumeric b) :
    IsNumeric (a ++ b) :=
  List.forall_mem_append.mpr ⟨ha, hb⟩

theorem IsNumeric.cons {c : Char} {chars : List Char} (h : IsNumeric chars)
    (hc : isNumeralChar c = true) : IsNumeric (c :: chars) :=
  List.forall_mem_cons.mpr ⟨hc, h⟩

theorem IsNumeric.take {chars : List Char} (h : IsNumeric chars) (n : Nat) :
    IsNumeric (chars.take n) :=
  fun c hc => h c (List.mem_of_mem_take hc)

theorem IsNumeric.drop {chars : List Char} (h : IsNumeric chars) (n : Nat) :
    IsNumeric (chars.drop n) :=
  fun c hc => h c (List.mem_of_mem_drop hc)

theorem isNumeric_of_all {chars : List Char} (h : chars.all isNumeralChar = true) :
    IsNumeric chars :=
  List.all_eq_true.mp h

theorem isNumeric_toDigits (n : Nat) : IsNumeric (Nat.toDigits 10 n) := by
  intro c hc
  have hdigit : c.isDigit = true := Nat.isDigit_of_mem_toDigits (by decide) (by decide) hc
  simp [isNumeralChar, hdigit]

theorem isNumeric_positional {style : NumeralStyle}
    (hstyle : IsNumeric style.afterInteger.toList) {digits : List Char} (h : IsNumeric digits)
    (power : Int) : IsNumeric (positional style digits power) := by
  have hzeros (n : Nat) : IsNumeric (List.replicate n '0') := by
    intro c hc
    rw [List.eq_of_mem_replicate hc]
    rfl
  unfold positional
  dsimp only
  split
  · exact ((isNumeric_of_all rfl).append (hzeros _)).append h
  · split
    · exact (h.append (hzeros _)).append hstyle
    · exact (h.take _).append ((h.drop _).cons rfl)

theorem isNumeric_scientific {digits : List Char} (h : IsNumeric digits) (power : Int) :
    IsNumeric (scientific digits power) := by
  have hfraction : IsNumeric (if digits.drop 1 = [] then [] else '.' :: digits.drop 1) := by
    split
    · exact isNumeric_of_all rfl
    · exact (h.drop 1).cons rfl
  have hsign : isNumeralChar (if power < 0 then '-' else '+') = true := by split <;> rfl
  exact ((h.take 1).append hfraction).append
    (((isNumeric_toDigits power.natAbs).cons hsign).cons rfl)

theorem isNumeric_magnitude {style : NumeralStyle}
    (hstyle : IsNumeric style.afterInteger.toList) (b : Binary) :
    IsNumeric (magnitude style b) := by
  unfold magnitude
  dsimp only
  split
  · exact isNumeric_positional hstyle (isNumeric_toDigits _) _
  · exact isNumeric_scientific (isNumeric_toDigits _) _

-- A number in source text is digits, a point, an exponent and signs, or a word.
theorem isNumeric_numeral (x : Float) : IsNumeric (numeral sourceNumeral x).toList := by
  unfold numeral
  dsimp only
  split
  · split <;> exact isNumeric_of_all rfl
  · split
    · exact isNumeric_of_all rfl
    · split
      · split <;> exact isNumeric_of_all rfl
      · rw [String.toList_ofList]
        refine IsNumeric.append ?_ (isNumeric_magnitude (isNumeric_of_all rfl) _)
        split <;> exact isNumeric_of_all rfl

theorem avoids_numeral {marks : List Char} (h : marks.any isNumeralChar = false) (x : Float) :
    Avoids marks (numeral sourceNumeral x).toList := by
  intro c hc hmark
  exact List.any_eq_false.mp h c hmark (isNumeric_numeral x c hc)

end Decimal

namespace Form

theorem isNeutral_atom {inLoopHead : Bool} {form : Form α} {template : Template α}
    (h : form.template inLoopHead = .ok template) (hatom : form.isAtom = true)
    (hwords : ∀ word ∈ form.words, IsPlain word.toList) :
    ∃ fixed, template = [.text fixed] ∧ IsNeutral fixed.toList := by
  cases form
  case identifier name =>
    cases h
    exact ⟨name, rfl, isNeutral_of_isPlain (hwords name (by simp [words]))⟩
  case literal value regex =>
    cases regex with
    | some regex =>
      have hpattern : IsPlain regex.pattern.toList := hwords _ (by simp [words])
      have hflags : IsPlain regex.flags.toList := hwords _ (by simp [words])
      have hslash : IsPlain "/".toList := by decide
      cases h
      refine ⟨_, rfl, isNeutral_of_isPlain ?_⟩
      simpa [RegexLiteral.text] using ((hslash.append hpattern).append hslash).append hflags
    | none =>
      cases h
      refine ⟨_, rfl, ?_⟩
      cases value with
      | null => exact isNeutral_of_isPlain (by decide)
      | boolean value => cases value <;> exact isNeutral_of_isPlain (by decide)
      | number value => exact isNeutral_of_isPlain (Decimal.avoids_numeral rfl value)
      | string value => exact isNeutral_quote value
  case moduleSpecifier value =>
    cases h
    exact ⟨_, rfl, isNeutral_quote value⟩
  all_goals cases hatom

-- The text of a construct keeps a scan of brackets where it was if the texts of its parts do.
theorem isNeutral_assemble {options : PrintOptions} (hoptions : options.IsPlain)
    {inLoopHead : Bool} {form : Form α} {template : Template α}
    (h : form.template inLoopHead = .ok template)
    (hwords : ∀ word ∈ form.words, IsPlain word.toList) {texts : List String}
    (htexts : ∀ text ∈ texts, IsNeutral text.toList) :
    IsNeutral (template.assemble options texts).toList := by
  cases hatom : form.isAtom with
  | true =>
    obtain ⟨fixed, rfl, hfixed⟩ := isNeutral_atom h hatom hwords
    simpa [Template.assemble] using hfixed
  | false =>
    have hbalanced := isBalanced_template h hatom hwords
    intro padding hpadding due
    rw [Template.run_assemble hoptions hbalanced.unquoted htexts hpadding, hbalanced.skeleton]

end Form

namespace Printer

-- A printer keeps the brackets of its text in order, whatever it takes for the parents of nodes.
theorem isNeutral_print {printer : Printer} (hoptions : printer.options.IsPlain) {cursor : Cursor}
    (hwords : ∀ other ∈ cursor.preorder, ∀ word ∈ other.node.form.words, IsPlain word.toList)
    {text : String} (h : printer.print cursor = .ok text) : IsNeutral text.toList := by
  induction cursor using Cursor.induction generalizing text with
  | step cursor ih =>
    obtain ⟨hcursor, hbelow⟩ := Cursor.forall_mem_preorder.mp hwords
    rw [print_eq] at h
    obtain ⟨template, htemplate, h⟩ := exists_of_bind_eq_ok h
    obtain ⟨texts, htexts, h⟩ := exists_of_bind_eq_ok h
    cases h
    rw [← Cursor.map_node_form, Form.words_map] at hcursor
    refine Form.isNeutral_assemble hoptions htemplate hcursor fun text htext => ?_
    obtain ⟨part, hpart, hprint⟩ := exists_of_mem_mapM htexts htext
    rw [Form.parts_template htemplate] at hpart
    have hchild := Form.mem_children_of_mem_printed hpart
    exact ih part hchild (hbelow part hchild) hprint

end Printer

-- The brackets of printed text close in the order they open, if the words of the tree and the
-- options hold none themselves; the values of string literals may hold anything.
theorem print_isBalanced (tree : Node) (options : PrintOptions)
    (hwords : ∀ cursor ∈ (Cursor.root tree).preorder, ∀ word ∈ cursor.node.form.words,
      IsPlain word.toList)
    (hoptions : options.IsPlain) {text : String} (h : tree.print options = .ok text) :
    IsBalanced text :=
  (Printer.isNeutral_print hoptions hwords h).isBalanced

-- A loop whose key is a string of a quote, brackets that do not match and a backslash.
def oddlyKeyed : Node :=
  ⟨.whileStatement (.computedMember (.identifier "items") (.string "\x27)[\x7b\\"))
    (.block [.statement (.call (.identifier "f") [.this])])⟩

theorem print_isBalanced_oddlyKeyed :
    oddlyKeyed.print {} = .ok "while (items['\\')[\x7b\\\\']) \x7b\n  f(this);\n\x7d" ∧
      IsBalanced "while (items['\\')[\x7b\\\\']) \x7b\n  f(this);\n\x7d" := by
  have hprint : oddlyKeyed.print {} =
      .ok "while (items['\\')[\x7b\\\\']) \x7b\n  f(this);\n\x7d" := by cbv
  refine ⟨hprint, print_isBalanced oddlyKeyed {} ?_ ⟨by decide, by decide⟩ hprint⟩
  decide +kernel

end Estree
