import Estree.Proofs.LoopHeads
import Estree.Proofs.Tokens

namespace Estree

open Text

namespace Text

-- Whether no word goes on into a text, whatever stands before it.
def opens (text : List Char) : Bool :=
  text.head?.any fun c => !isWordChar c

-- Whether no word goes on out of a text, whatever follows.
def closes (text : List Char) : Bool :=
  text.getLast?.any fun c => !isWordChar c

theorem apart_of_opens {b : List Char} (h : opens b = true) (a : List Char) : Apart a b := by
  intro c _ d hd _
  rw [opens, Option.mem_def.mp hd] at h
  simpa using h

theorem apart_of_closes {a : List Char} (h : closes a = true) (b : List Char) : Apart a b := by
  intro c hc d _ hword
  rw [closes, Option.mem_def.mp hc] at h
  simp [hword] at h

theorem opens_append {a : List Char} (h : opens a = true) (b : List Char) :
    opens (a ++ b) = true := by
  cases a with
  | nil => simp [opens] at h
  | cons c a => simpa [opens] using h

theorem isClosed_intercalate {separator : List Char} (hseparator : IsClosed separator)
    (hopens : opens separator = true) (hcloses : closes separator = true)
    {texts : List (List Char)} (h : ∀ text ∈ texts, IsClosed text) :
    IsClosed (separator.intercalate texts) ∧
      tokens (separator.intercalate texts) = (tokens separator).intercalate (texts.map tokens) := by
  induction texts with
  | nil => exact ⟨isClosed_nil, rfl⟩
  | cons text texts ih =>
    rw [List.forall_mem_cons] at h
    cases texts with
    | nil => simpa using h.1
    | cons next texts =>
      obtain ⟨hrest, htokens⟩ := ih h.2
      have hapart := apart_of_closes hcloses (separator.intercalate (next :: texts))
      have hfirst := apart_of_opens
        (opens_append hopens (separator.intercalate (next :: texts))) text
      rw [List.intercalate_cons_cons, List.append_assoc]
      refine ⟨h.1.append (hseparator.append hrest hapart) hfirst, ?_⟩
      rw [tokens_append h.1 hfirst, tokens_append hseparator hapart, htokens]
      simp [List.intercalate_cons_cons]

end Text

namespace Arrangement

-- The tokens between two parts.
def between : Arrangement → List SourceToken
  | separatedBy separator => tokens separator.toList
  | declarators => [.mark ',']
  | nested | loopBody => []

-- Whether a line is opened first.
def opens : Arrangement → Bool
  | nested => true
  | _ => false

end Arrangement

variable {α β : Type}

namespace Piece

-- Whether the tokens of several parts stay apart.
def isJoined : Piece α → Bool
  | .text _ => true
  | .parts (.separatedBy separator) children =>
    (Text.opens separator.toList && Text.closes separator.toList &&
      separator.toList.all (· != '\x27')) || children.length ≤ 1
  | .parts .nested _ | .parts .declarators _ => true
  | .parts .loopBody _ => false

def isPlain : Piece α → Bool
  | .text fixed => fixed.toList.all (· != '\x27')
  | .parts _ _ => true

def tokens : Piece (List SourceToken) → List SourceToken
  | .text fixed => Text.tokens fixed.toList
  | .parts arrangement children => arrangement.between.intercalate children

end Piece

namespace Template

-- Whether no word goes on from one piece into the next. `closed` says that none goes on out of what
-- stands in front.
def isSpaced (closed : Bool) : Template α → Bool
  | [] => true
  | .text fixed :: template =>
    if fixed.toList.isEmpty then isSpaced closed template
    else (closed || opens fixed.toList) && isSpaced (closes fixed.toList) template
  | .parts arrangement _ :: template => (closed || arrangement.opens) && isSpaced false template

-- Whether a template without quotes is separable.
def isPlain (template : Template α) : Bool :=
  template.all (fun piece => piece.isPlain && piece.isJoined) && template.isSpaced true

-- The tokens of a template, given those of its parts.
def tokens (template : Template (List SourceToken)) : List SourceToken :=
  template.flatMap Piece.tokens

@[simp] theorem tokens_nil : tokens [] = [] := rfl

@[simp] theorem tokens_cons_text (fixed : String) (template : Template (List SourceToken)) :
    tokens (.text fixed :: template) = Text.tokens fixed.toList ++ tokens template := rfl

@[simp] theorem tokens_cons_parts (arrangement : Arrangement) (children : List (List SourceToken))
    (template : Template (List SourceToken)) :
    tokens (.parts arrangement children :: template) =
      arrangement.between.intercalate children ++ tokens template := rfl

@[simp] theorem tokens_cons_part (child : List SourceToken)
    (template : Template (List SourceToken)) :
    tokens (Piece.part child :: template) = child ++ tokens template := by
  simp [Piece.part]

@[simp] theorem tokens_append (first second : Template (List SourceToken)) :
    tokens (first ++ second) = tokens first ++ tokens second :=
  List.flatMap_append

@[simp] theorem tokens_cons_list (separator : String) (children : List (List SourceToken))
    (template : Template (List SourceToken)) :
    tokens (Piece.list separator children :: template) =
      (Text.tokens separator.toList).intercalate children ++ tokens template := rfl

-- Parts that nothing separates follow one another.
theorem intercalate_nil_separator (children : List (List SourceToken)) :
    List.intercalate [] children = children.flatten := by
  induction children with
  | nil => rfl
  | cons child children ih => cases children <;> simp_all [List.intercalate_cons_cons]

@[simp] theorem tokens_optional (before : String) (child : Option (List SourceToken)) :
    tokens (Form.optional before child) =
      (child.map (Text.tokens before.toList ++ ·)).getD [] := by
  cases child <;> simp [Form.optional]

-- A template whose tokens can be told from those of its parts.
structure IsSeparable (template : Template α) : Prop where
  closed : ∀ fixed, .text fixed ∈ template → IsClosed fixed.toList
  joined : ∀ piece ∈ template, piece.isJoined = true
  spaced : template.isSpaced true = true

-- The text of a template that is filled with the texts of its parts.
def fill (options : PrintOptions) (template : Template String) : String :=
  template.assemble options template.parts

theorem fill_text (options : PrintOptions) (fixed : String) (template : Template String) :
    fill options (.text fixed :: template) = fixed ++ fill options template := rfl

theorem fill_parts (options : PrintOptions) (arrangement : Arrangement) (texts : List String)
    (template : Template String) :
    fill options (.parts arrangement texts :: template) =
      arrangement.write options texts ++ fill options template := by
  simp [fill, assemble]

-- A spaced template does not carry on the last word of what stands in front.
theorem apart_fill (options : PrintOptions) {closed : Bool} {template : Template String}
    (hspaced : template.isSpaced closed = true) {text : List Char}
    (hclosed : closed = true → closes text = true) : Apart text (fill options template).toList := by
  induction template with
  | nil => exact apart_nil text
  | cons piece template ih =>
    cases piece with
    | text fixed =>
      rw [fill_text, String.toList_append]
      rw [isSpaced] at hspaced
      split at hspaced
      · rename_i hempty
        rw [List.isEmpty_iff.mp hempty]
        exact ih hspaced
      · rw [Bool.and_eq_true, Bool.or_eq_true] at hspaced
        rcases hspaced.1 with h | h
        · exact apart_of_closes (hclosed h) _
        · exact apart_of_opens (opens_append h _) text
    | parts arrangement texts =>
      rw [fill_parts, String.toList_append]
      rw [isSpaced, Bool.and_eq_true, Bool.or_eq_true] at hspaced
      rcases hspaced.1 with h | h
      · exact apart_of_closes (hclosed h) _
      · cases arrangement with
        | nested =>
          rw [Arrangement.write, String.toList_append]
          exact apart_of_opens (opens_append (opens_append rfl _) _) text
        | _ => cases h

theorem map_map {γ : Type} (f : α → β) (g : β → γ) (template : Template α) :
    map g (map f template) = map (fun part => g (f part)) template := by
  induction template with
  | nil => rfl
  | cons piece template ih => cases piece <;> simp [ih]

theorem isSpaced_map (f : α → β) (closed : Bool) (template : Template α) :
    (map f template).isSpaced closed = template.isSpaced closed := by
  induction template generalizing closed with
  | nil => rfl
  | cons piece template ih => cases piece <;> simp [isSpaced, ih]

-- Whether a template is separable does not depend on its parts.
theorem IsSeparable.map {template : Template α} (h : template.IsSeparable) (f : α → β) :
    (map f template).IsSeparable := by
  refine ⟨?_, ?_, by rw [isSpaced_map, h.spaced]⟩
  · intro fixed hfixed
    obtain ⟨piece, hpiece, hmap⟩ := List.mem_map.mp hfixed
    cases piece with
    | text other =>
      cases hmap
      exact h.closed fixed hpiece
    | parts arrangement children => cases hmap
  · intro piece hpiece
    obtain ⟨other, hother, rfl⟩ := List.mem_map.mp hpiece
    have hjoined := h.joined other hother
    cases other with
    | text fixed => rfl
    | parts arrangement children =>
      cases arrangement with
      | separatedBy separator => simpa [Piece.isJoined] using hjoined
      | nested | declarators => rfl
      | loopBody => cases hjoined

theorem isSeparable_of_isPlain {template : Template α} (h : template.isPlain = true) :
    template.IsSeparable := by
  simp only [isPlain, Bool.and_eq_true, List.all_eq_true] at h
  refine ⟨?_, fun piece hpiece => (h.1 piece hpiece).2, h.2⟩
  intro fixed hfixed
  have hplain := (h.1 (.text fixed) hfixed).1
  apply isClosed_of_unquoted
  simpa [Piece.isPlain] using hplain

theorem isSeparable_text {fixed : String} (h : IsClosed fixed.toList) :
    IsSeparable ([.text fixed] : Template α) :=
  ⟨by simpa using h, by simp [Piece.isJoined], by simp [isSpaced]⟩

theorem isSpaced_true {closed : Bool} {template : Template α}
    (h : template.isSpaced closed = true) : template.isSpaced true = true := by
  induction template with
  | nil => rfl
  | cons piece template ih =>
    cases piece with
    | text fixed =>
      rw [isSpaced] at h ⊢
      split at h
      · rename_i hempty
        rw [if_pos hempty]
        exact ih h
      · rename_i hempty
        rw [if_neg hempty]
        exact (Bool.and_eq_true_iff.mp h).2
    | parts arrangement children => exact (Bool.and_eq_true_iff.mp h).2

-- What is behind the first piece is separable and does not carry on its last word.
theorem IsSeparable.tail {piece : Piece α} {template : Template α}
    (h : IsSeparable (piece :: template)) : IsSeparable template := by
  refine ⟨fun fixed hfixed => h.closed fixed (List.mem_cons_of_mem _ hfixed),
    fun other hother => h.joined other (List.mem_cons_of_mem _ hother), ?_⟩
  have hspaced := h.spaced
  cases piece with
  | text fixed =>
    rw [isSpaced] at hspaced
    split at hspaced
    · exact hspaced
    · exact isSpaced_true (Bool.and_eq_true_iff.mp hspaced).2
  | parts arrangement children => exact isSpaced_true (Bool.and_eq_true_iff.mp hspaced).2

end Template

namespace Node

-- The text of a node, if it is printed.
def textIn (options : PrintOptions) (inLoopHead : Bool) (node : Node) : String :=
  (node.printIn options inLoopHead).toOption.getD ""

def tokensIn (options : PrintOptions) (inLoopHead : Bool) (node : Node) : List SourceToken :=
  tokens (node.textIn options inLoopHead).toList

-- A node is printed, and its tokens do not depend on what is around it.
def IsClosed (options : PrintOptions) (inLoopHead : Bool) (node : Node) : Prop :=
  ∃ text, node.printIn options inLoopHead = .ok text ∧ Text.IsClosed text.toList

end Node

section Layout

variable {options : PrintOptions} (hoptions : options.IsBlank)

include hoptions

namespace Arrangement

theorem isClosed_declaratorSeparator (texts : List String) :
    IsClosed (declaratorSeparator options texts).toList ∧
      Text.opens (declaratorSeparator options texts).toList = true ∧
      Text.closes (declaratorSeparator options texts).toList = true ∧
      tokens (declaratorSeparator options texts).toList = [.mark ','] := by
  unfold declaratorSeparator
  split
  · have hblank := hoptions.continuationIndent
    rw [String.toList_append]
    generalize options.continuationIndent.toList = indent at hblank ⊢
    have hcomma : ∀ c ∈ ",\n".toList, c ≠ '\x27' := by simp
    refine ⟨isClosed_of_unquoted ?_, rfl, ?_, ?_⟩
    · intro c hc
      rcases List.mem_append.mp hc with hc | hc
      · exact hcomma c hc
      · rintro rfl
        cases hblank _ hc
    · rcases List.eq_nil_or_concat indent with rfl | ⟨init, c, rfl⟩
      · rfl
      · have hlast := isWordChar_of_isBlank (hblank c (by simp))
        rw [List.concat_eq_append, ← List.append_assoc, Text.closes, List.getLast?_concat]
        simpa using hlast
    · have hskip := tokens_blanks hblank []
      rw [List.append_nil] at hskip
      exact congrArg (.mark ',' :: ·) hskip
  · exact ⟨isClosed_of_unquoted (by simp), rfl, rfl, rfl⟩

theorem isClosed_write {arrangement : Arrangement} {texts : List String}
    (hjoined : (Piece.parts arrangement texts).isJoined = true)
    (h : ∀ text ∈ texts, IsClosed text.toList) :
    IsClosed (arrangement.write options texts).toList ∧
      tokens (arrangement.write options texts).toList =
        arrangement.between.intercalate (texts.map fun text => tokens text.toList) := by
  have hchars : ∀ chars ∈ texts.map String.toList, IsClosed chars := by simpa using h
  have htokens : texts.map (fun text => tokens text.toList) =
      (texts.map String.toList).map tokens := by simp
  cases arrangement with
  | separatedBy separator =>
    rw [write, String.toList_intercalate, between, htokens]
    rcases Bool.or_eq_true_iff.mp hjoined with hseparator | hshort
    · simp only [Bool.and_eq_true, List.all_eq_true, bne_iff_ne] at hseparator
      exact isClosed_intercalate (isClosed_of_unquoted hseparator.2) hseparator.1.1
        hseparator.1.2 hchars
    · rcases texts with _ | ⟨text, _ | ⟨next, others⟩⟩
      · exact ⟨isClosed_nil, rfl⟩
      · simpa using h
      · simp at hshort
  | nested =>
    have hnewline : IsClosed ['\n'] := isClosed_of_unquoted (by simp)
    have hlines := isClosed_intercalate hnewline rfl rfl hchars
    have hindent := hlines.1.indent hoptions.indentUnit
    rw [write, String.toList_append, toList_indentWith_eq_hang, String.toList_intercalate, between,
      htokens]
    exact ⟨hindent.1, hindent.2.trans hlines.2⟩
  | declarators =>
    obtain ⟨hclosed, hopens, hcloses, hcomma⟩ := isClosed_declaratorSeparator hoptions texts
    rw [write, String.toList_intercalate, between, htokens, ← hcomma]
    exact isClosed_intercalate hclosed hopens hcloses hchars
  | loopBody => cases hjoined

end Arrangement

namespace Template

-- The tokens of a text are those of the pieces it was written from.
theorem isClosed_fill {template : Template String} (htemplate : template.IsSeparable)
    (hparts : ∀ text ∈ template.parts, IsClosed text.toList) :
    IsClosed (fill options template).toList ∧
      Text.tokens (fill options template).toList =
        (template.map fun text => Text.tokens text.toList).tokens := by
  induction template with
  | nil => exact ⟨isClosed_nil, rfl⟩
  | cons piece template ih =>
    cases piece with
    | text fixed =>
      obtain ⟨hrest, htokens⟩ := ih htemplate.tail hparts
      have hfixed := htemplate.closed fixed (by simp)
      have hapart : Apart fixed.toList (fill options template).toList := by
        have hspaced := htemplate.spaced
        rw [isSpaced] at hspaced
        split at hspaced
        · rename_i hempty
          rw [List.isEmpty_iff.mp hempty]
          exact nofun
        · exact apart_fill options (Bool.and_eq_true_iff.mp hspaced).2 id
      rw [fill_text, String.toList_append]
      refine ⟨hfixed.append hrest hapart, ?_⟩
      rw [Text.tokens_append hfixed hapart, htokens]
      rfl
    | parts arrangement texts =>
      rw [parts_cons_parts, List.forall_mem_append] at hparts
      obtain ⟨hrest, htokens⟩ := ih htemplate.tail hparts.2
      have hjoined := htemplate.joined (.parts arrangement texts) (by simp)
      obtain ⟨hwrite, hbetween⟩ := Arrangement.isClosed_write hoptions hjoined hparts.1
      have hapart : Apart (arrangement.write options texts).toList (fill options template).toList :=
        apart_fill options (Bool.and_eq_true_iff.mp htemplate.spaced).2 nofun
      rw [fill_parts, String.toList_append]
      refine ⟨hwrite.append hrest hapart, ?_⟩
      rw [Text.tokens_append hwrite hapart, htokens, hbetween]
      rfl

end Template

namespace Node

omit hoptions in
theorem printIn_of_isClosed {inLoopHead : Bool} {node : Node}
    (h : node.IsClosed options inLoopHead) :
    node.printIn options inLoopHead = .ok (node.textIn options inLoopHead) := by
  obtain ⟨text, htext, -⟩ := h
  rw [textIn, htext]
  rfl

-- The tokens of a construct are those of its template, with the tokens of its parts in place.
theorem isClosed_of_template (inLoopHead : Bool) (node : Node) {template : Template (Bool × Node)}
    (ht : node.form.markHead.template inLoopHead = .ok template)
    (htemplate : template.IsSeparable)
    (hchildren : ∀ part ∈ node.form.markHead.children, part.2.IsClosed options part.1) :
    node.IsClosed options inLoopHead ∧
      node.tokensIn options inLoopHead =
        (template.map fun part => part.2.tokensIn options part.1).tokens := by
  have hparts : ∀ part ∈ template.parts, part.2.IsClosed options part.1 := by
    rw [Form.parts_template ht]
    exact fun part hpart => hchildren part (Form.mem_children_of_mem_printed hpart)
  have htexts : template.parts.mapM (fun part => part.2.printIn options part.1) =
      template.parts.mapM fun part => pure (part.2.textIn options part.1) :=
    Form.mapM_list_congr fun part hpart => printIn_of_isClosed (hparts part hpart)
  have hprint : node.printIn options inLoopHead =
      .ok ((template.map fun part => part.2.textIn options part.1).fill options) := by
    rw [printIn_eq, ht, ok_bind, htexts, List.mapM_pure, Template.fill, Template.assemble_map,
      Template.parts_map]
    rfl
  have hclosed := Template.isClosed_fill hoptions
    (htemplate.map fun part => part.2.textIn options part.1) (by
      rw [Template.parts_map, List.forall_mem_map]
      intro part hpart
      obtain ⟨text, htext, hclosed⟩ := hparts part hpart
      rwa [textIn, htext])
  refine ⟨⟨_, hprint, hclosed.1⟩, ?_⟩
  rw [tokensIn, textIn, hprint]
  refine hclosed.2.trans ?_
  rw [Template.map_map]
  rfl

-- Outside of loops nothing stands in a head.
theorem isClosed_of_form (inLoopHead : Bool) (form : Form Node) {template : Template Node}
    (hmark : form.markHead = form.map (false, ·)) (ht : form.template inLoopHead = .ok template)
    (htemplate : template.IsSeparable)
    (hchildren : ∀ part ∈ form.children, part.IsClosed options false) :
    (Node.mk form).IsClosed options inLoopHead ∧
      (Node.mk form).tokensIn options inLoopHead =
        (template.map (tokensIn options false)).tokens := by
  have hmarked : (Node.mk form).form.markHead.template inLoopHead =
      .ok (template.map (false, ·)) := by
    rw [hmark, Form.template_map, ht]
    rfl
  have hmarkedChildren : ∀ part ∈ (Node.mk form).form.markHead.children,
      part.2.IsClosed options part.1 := by
    rw [hmark, Form.children_map, List.forall_mem_map]
    exact hchildren
  have hclosed := isClosed_of_template hoptions inLoopHead ⟨form⟩ hmarked (htemplate.map _)
    hmarkedChildren
  rwa [Template.map_map] at hclosed

end Node

end Layout

end Estree
