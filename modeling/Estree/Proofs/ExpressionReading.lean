import Estree.Proofs.Reader
import Estree.Proofs.TemplateTokens

namespace Estree

open Text SourceToken

-- The words that cannot be names anywhere.
def reservedWords : List String :=
  ["break", "case", "catch", "class", "const", "continue", "debugger", "default", "delete", "do",
   "else", "enum", "export", "extends", "false", "finally", "for", "function", "if", "import", "in",
   "instanceof", "new", "null", "return", "super", "switch", "this", "throw", "true", "try",
   "typeof", "var", "void", "while", "with"]

-- Letters, digits, `_` and `$`, and no digit in front.
def isName (name : String) : Bool :=
  name.toList.all isWordChar && name.toList.head?.any fun c => !c.isDigit

def IsIdentifier (name : String) : Prop :=
  isName name = true ∧ name ∉ reservedWords

instance (name : String) : Decidable (IsIdentifier name) :=
  inferInstanceAs (Decidable (_ ∧ _))

inductive IsExpression : Node → Prop where
  | identifier {name : String} (h : IsIdentifier name) : IsExpression (.identifier name)
  | this : IsExpression .this
  | string (text : String) : IsExpression (.string text)
  | member {object : Node} {name : String} (hobject : IsExpression object)
      (hname : isName name = true) : IsExpression (.member object name)
  | computedMember {object key : Node} (hobject : IsExpression object) (hkey : IsExpression key) :
      IsExpression (.computedMember object key)
  | call {callee : Node} {arguments : List Node} (hcallee : IsExpression callee)
      (harguments : ∀ argument ∈ arguments, IsExpression argument) :
      IsExpression (.call callee arguments)
  | conditional {test consequent alternate : Node} (htest : IsExpression test)
      (hconsequent : IsExpression consequent) (halternate : IsExpression alternate) :
      IsExpression ⟨.conditionalExpression test consequent alternate⟩

theorem isWordChar_of_isName {name : String} (h : isName name = true) :
    ∀ c ∈ name.toList, isWordChar c = true :=
  List.all_eq_true.mp (Bool.and_eq_true_iff.mp h).1

theorem tokens_name {name : String} (h : isName name = true) :
    tokens name.toList = [.word name] := by
  have hne : name.toList ≠ [] := by
    intro hnil
    simp [isName, hnil] at h
  rw [tokens_word hne (isWordChar_of_isName h), String.ofList_toList]

-- An identifier is not taken for the first word of a statement, unless another word follows.
theorem openingOfWord_identifier {name : String} (h : IsIdentifier name) (c : Char) :
    openingOfWord name (some (.mark c)) = .expression := by
  unfold openingOfWord
  split
  iterate 8 exact absurd h.2 (by decide)
  · rename_i hword
    cases hword
  · rename_i hword
    cases hword
  · rfl

section Reading

variable {options : PrintOptions} (hoptions : options.IsBlank)

-- An expression is read up to its end, where links may follow.
structure ReadsExpression (options : PrintOptions) (node : Node) : Prop where
  closed : node.IsClosed options false
  read : ∀ rest, readExpression (node.tokensIn options false ++ rest) = readLinks node rest
  opening : ∀ c rest, opening (node.tokensIn options false ++ .mark c :: rest) = .expression

-- An expression that is not followed by a link is read as a whole.
theorem ReadsExpression.read_mark {node : Node} (h : ReadsExpression options node) {c : Char}
    (hc : c ∉ ['.', '[', '(']) (rest : List SourceToken) :
    readExpression (node.tokensIn options false ++ .mark c :: rest) =
      some (node, .mark c :: rest) := by
  rw [h.read, readLinks]
  all_goals simp_all

theorem ReadsExpression.tokens_ne_nil {node : Node} (h : ReadsExpression options node) :
    node.tokensIn options false ≠ [] := by
  intro hnil
  have hopening := h.opening ';' []
  rw [hnil] at hopening
  cases hopening

include hoptions

theorem isClosed_identifier {name : String} (h : isName name = true) :
    (Node.identifier name).IsClosed options false ∧
      (Node.identifier name).tokensIn options false = [.word name] := by
  have hunquoted : ∀ c ∈ name.toList, c ≠ '\x27' := by
    rintro c hc rfl
    cases isWordChar_of_isName h _ hc
  obtain ⟨hclosed, htokens⟩ := Node.isClosed_of_form hoptions false (.identifier name) rfl rfl
    (Template.isSeparable_text (isClosed_of_unquoted hunquoted)) nofun
  refine ⟨hclosed, htokens.trans ?_⟩
  simp [tokens_name h]

theorem reads_identifier {name : String} (h : IsIdentifier name) :
    ReadsExpression options (.identifier name) := by
  obtain ⟨hclosed, htokens⟩ := isClosed_identifier hoptions h.1
  refine ⟨hclosed, ?_, ?_⟩
  · intro rest
    have hthis : name ≠ "this" := by
      rintro rfl
      exact absurd h.2 (by decide)
    rw [htokens, readExpression, List.singleton_append, readHead]
    simp [hthis, fewer_eq]
  · intro c rest
    rw [htokens]
    exact openingOfWord_identifier h c

theorem reads_this : ReadsExpression options .this := by
  obtain ⟨hclosed, htokens⟩ := Node.isClosed_of_form hoptions false .thisExpression rfl rfl
    (Template.isSeparable_of_isPlain rfl) nofun
  have hthis : Node.this.tokensIn options false = [.word "this"] := htokens
  refine ⟨hclosed, ?_, ?_⟩
  · intro rest
    rw [hthis, readExpression, List.singleton_append, readHead]
    simp [fewer_eq]
  · intro c rest
    rw [hthis]
    rfl

theorem reads_string (text : String) : ReadsExpression options (.string text) := by
  obtain ⟨hclosed, htokens⟩ := Node.isClosed_of_form hoptions false (.literal (.string text) none)
    rfl rfl (Template.isSeparable_text (isClosed_quote text)) nofun
  have hquoted : (Node.string text).tokensIn options false =
      [.quoted (text.toList.flatMap escapeQuoted)] := by
    have hquote := tokens_quote text []
    rw [List.append_nil] at hquote
    exact htokens.trans ((List.append_nil _).trans hquote)
  refine ⟨hclosed, ?_, ?_⟩
  · intro rest
    rw [hquoted, readExpression, List.singleton_append, readHead]
    simp [unescape_flatMap_escapeQuoted, fewer_eq]
  · intro c rest
    rw [hquoted]
    rfl

theorem reads_member {object : Node} {name : String} (hobject : ReadsExpression options object)
    (hname : isName name = true) : ReadsExpression options (.member object name) := by
  obtain ⟨hid, hidTokens⟩ := isClosed_identifier hoptions hname
  obtain ⟨hclosed, htokens⟩ := Node.isClosed_of_form hoptions false
    (.memberExpression object (.identifier name) false) rfl rfl
    (Template.isSeparable_of_isPlain rfl) (by simpa [Form.children] using ⟨hobject.closed, hid⟩)
  have hmember : (Node.member object name).tokensIn options false =
      object.tokensIn options false ++ [.mark '.', .word name] := by
    refine htokens.trans ?_
    simp [hidTokens]
    rfl
  refine ⟨hclosed, ?_, ?_⟩
  · intro rest
    rw [hmember, List.append_assoc, hobject.read, List.cons_append, List.cons_append]
    conv => lhs; rw [readLinks]
    rfl
  · intro c rest
    rw [hmember, List.append_assoc]
    exact hobject.opening _ _

theorem reads_computedMember {object key : Node} (hobject : ReadsExpression options object)
    (hkey : ReadsExpression options key) :
    ReadsExpression options (.computedMember object key) := by
  obtain ⟨hclosed, htokens⟩ := Node.isClosed_of_form hoptions false
    (.memberExpression object key true) rfl rfl
    (Template.isSeparable_of_isPlain rfl)
    (by simpa [Form.children] using ⟨hobject.closed, hkey.closed⟩)
  have hmember : (Node.computedMember object key).tokensIn options false =
      object.tokensIn options false ++
        .mark '[' :: (key.tokensIn options false ++ [.mark ']']) := by
    refine htokens.trans ?_
    simp
    rfl
  refine ⟨hclosed, ?_, ?_⟩
  · intro rest
    rw [hmember, List.append_assoc, hobject.read, List.cons_append, List.append_assoc]
    conv => lhs; rw [readLinks]
    rw [List.singleton_append, hkey.read_mark (by decide)]
    simp [expect, fewer_eq (length_lt_append_cons _ _ _)]
  · intro c rest
    rw [hmember, List.append_assoc]
    exact hobject.opening _ _

omit hoptions in
-- Behind the first entry of a list stands a comma or the mark that closes the list.
theorem exists_mark_intercalate (entry : List SourceToken) (entries : List (List SourceToken))
    {close : Char} (hclose : close ≠ ',') (rest : List SourceToken) :
    ∃ c tail, (c = ',' ∨ c = close) ∧
      [.mark ','].intercalate (entry :: entries) ++ .mark close :: rest =
        entry ++ .mark c :: tail ∧
      skip ',' (.mark c :: tail) = [.mark ','].intercalate entries ++ .mark close :: rest := by
  cases entries with
  | nil => exact ⟨close, rest, .inr rfl, by simp, by simp [skip, hclose.symm]⟩
  | cons next entries =>
    refine ⟨',', [.mark ','].intercalate (next :: entries) ++ .mark close :: rest, .inl rfl, ?_, ?_⟩
    · rw [List.intercalate_cons_cons, List.append_assoc, List.append_assoc, List.singleton_append]
    · rw [skip, if_pos rfl]

omit hoptions in
theorem readItems_intercalate {items : List Node}
    (h : ∀ item ∈ items, ReadsExpression options item) (rest : List SourceToken) :
    readItems ([.mark ','].intercalate (items.map (Node.tokensIn options false)) ++
      .mark ')' :: rest) = some (items, .mark ')' :: rest) := by
  induction items with
  | nil =>
    rw [readItems]
    rfl
  | cons item items ih =>
    rw [List.forall_mem_cons] at h
    obtain ⟨c, tail, hc, hlist, hskip⟩ := exists_mark_intercalate (item.tokensIn options false)
      (items.map (Node.tokensIn options false)) (by decide : ')' ≠ ',') rest
    have hlink : c ∉ ['.', '[', '('] := by
      rcases hc with rfl | rfl <;> decide
    have hfewer := length_skip_lt ',' h.1.tokens_ne_nil (.mark c :: tail)
    rw [hskip] at hfewer
    rw [List.map_cons, hlist, readItems, if_pos (h.1.opening _ _), h.1.read_mark hlink]
    simp [hskip, fewer_eq hfewer, ih h.2]

theorem reads_call {callee : Node} {arguments : List Node}
    (hcallee : ReadsExpression options callee)
    (harguments : ∀ argument ∈ arguments, ReadsExpression options argument) :
    ReadsExpression options (.call callee arguments) := by
  have hparts : ∀ part ∈ callee :: arguments, part.IsClosed options false :=
    List.forall_mem_cons.mpr ⟨hcallee.closed, fun part hpart => (harguments part hpart).closed⟩
  obtain ⟨hclosed, htokens⟩ := Node.isClosed_of_form hoptions false
    (.callExpression callee arguments) rfl rfl (Template.isSeparable_of_isPlain rfl)
    hparts
  have hcall : (Node.call callee arguments).tokensIn options false =
      callee.tokensIn options false ++ .mark '(' ::
        ([.mark ','].intercalate (arguments.map (Node.tokensIn options false)) ++ [.mark ')']) := by
    refine htokens.trans ?_
    simp
    rfl
  refine ⟨hclosed, ?_, ?_⟩
  · intro rest
    rw [hcall, List.append_assoc, hcallee.read, List.cons_append, List.append_assoc]
    conv => lhs; rw [readLinks]
    rw [List.singleton_append, readItems_intercalate harguments]
    simp [expect, fewer_eq (length_lt_append_cons _ _ _)]
  · intro c rest
    rw [hcall, List.append_assoc]
    exact hcallee.opening _ _

theorem reads_conditional {test consequent alternate : Node} (htest : ReadsExpression options test)
    (hconsequent : ReadsExpression options consequent)
    (halternate : ReadsExpression options alternate) :
    ReadsExpression options ⟨.conditionalExpression test consequent alternate⟩ := by
  obtain ⟨hclosed, htokens⟩ := Node.isClosed_of_form hoptions false
    (.conditionalExpression test consequent alternate) rfl rfl
    (Template.isSeparable_of_isPlain rfl)
    (by simpa [Form.children] using ⟨htest.closed, hconsequent.closed, halternate.closed⟩)
  have hconditional : (Node.mk (.conditionalExpression test consequent alternate)).tokensIn options
      false = .mark '(' :: (test.tokensIn options false ++ .mark '?' ::
        (consequent.tokensIn options false ++ .mark ':' ::
          (alternate.tokensIn options false ++ [.mark ')']))) := by
    refine htokens.trans ?_
    simp
    rfl
  refine ⟨hclosed, ?_, ?_⟩
  · intro rest
    have hfirst (rest : List SourceToken) : rest.length <
        (test.tokensIn options false ++ .mark '?' :: rest).length := length_lt_append_cons _ _ _
    have hsecond (rest : List SourceToken) : rest.length <
        (test.tokensIn options false ++ .mark '?' ::
          (consequent.tokensIn options false ++ .mark ':' :: rest)).length :=
      Nat.lt_trans (length_lt_append_cons _ _ _) (hfirst _)
    have hwhole (inner : List SourceToken) : rest.length < (.mark '(' :: (inner ++ rest)).length :=
      length_lt_append (List.cons_ne_nil (.mark '(') inner) rest
    rw [hconditional, readExpression]
    simp only [List.cons_append, List.append_assoc, List.nil_append]
    rw [readHead, htest.read_mark (by decide)]
    simp only [Option.bind_eq_bind, Option.bind_some, expect, reduceIte, fewer_eq (hfirst _),
      hconsequent.read_mark (c := ':') (by decide), fewer_eq (hsecond _),
      halternate.read_mark (c := ')') (by decide)]
    exact congrArg (Option.bind · _) (fewer_eq (hwhole _))
  · intro c rest
    rw [hconditional]
    rfl

theorem reads_expression {node : Node} (h : IsExpression node) : ReadsExpression options node := by
  induction h with
  | identifier h => exact reads_identifier hoptions h
  | this => exact reads_this hoptions
  | string text => exact reads_string hoptions text
  | member hobject hname ih => exact reads_member hoptions ih hname
  | computedMember hobject hkey ihobject ihkey => exact reads_computedMember hoptions ihobject ihkey
  | call hcallee harguments ihcallee iharguments =>
    exact reads_call hoptions ihcallee iharguments
  | conditional htest hconsequent halternate ihtest ihconsequent ihalternate =>
    exact reads_conditional hoptions ihtest ihconsequent ihalternate

omit hoptions in
-- An expression that may be missing is read up to a mark that starts none.
theorem readOptional_mark {part : Option Node} (h : ∀ value ∈ part, ReadsExpression options value)
    {c : Char} (hc : c ∉ ['.', '[', '(']) (rest : List SourceToken) :
    readOptional ((part.map (Node.tokensIn options false)).getD [] ++ .mark c :: rest) =
      some (part, .mark c :: rest) := by
  cases part with
  | none =>
    have hopening : opening (.mark c :: rest) ≠ .expression := by
      have hne : c ≠ '(' := by simp_all
      rw [opening, if_neg hne]
      split <;> decide
    simp [readOptional, hopening]
  | some value =>
    have hvalue := h value rfl
    simp [readOptional, hvalue.opening, hvalue.read_mark hc]

end Reading

end Estree
