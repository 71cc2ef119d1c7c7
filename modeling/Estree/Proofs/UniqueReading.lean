import Estree.Proofs.ExpressionReading

namespace Estree

open Text SourceToken

def IsDeclarator (node : Node) : Prop :=
  ∃ name init, node = .declarator name init ∧ IsIdentifier name ∧ ∀ value ∈ init, IsExpression value

def IsDeclaration (node : Node) : Prop :=
  ∃ kind declarators, node = .declaration kind declarators ∧ declarators ≠ [] ∧
    ∀ declarator ∈ declarators, IsDeclarator declarator

inductive IsStatement : Node → Prop where
  | expression {expression : Node} (h : IsExpression expression) :
      IsStatement (.statement expression)
  | block {body : List Node} (h : ∀ statement ∈ body, IsStatement statement) :
      IsStatement (.block body)
  | returning {argument : Option Node} (h : ∀ value ∈ argument, IsExpression value) :
      IsStatement (.returning argument)
  | throwing {argument : Node} (h : IsExpression argument) : IsStatement ⟨.throwStatement argument⟩
  | declaration {declaration : Node} (h : IsDeclaration declaration) : IsStatement declaration
  | branch {test consequent : Node} (htest : IsExpression test)
      (hconsequent : IsStatement consequent) : IsStatement ⟨.ifStatement test consequent none⟩
  | whileLoop {test body : Node} (htest : IsExpression test) (hbody : IsStatement body) :
      IsStatement ⟨.whileStatement test body⟩
  | forLoop {init test update : Option Node} {body : Node}
      (hinit : ∀ part ∈ init, IsExpression part ∨ IsDeclaration part)
      (htest : ∀ part ∈ test, IsExpression part) (hupdate : ∀ part ∈ update, IsExpression part)
      (hbody : IsStatement body) : IsStatement ⟨.forStatement init test update body⟩
  | function {name : String} {params body : List Node} {generator async : Bool}
      (hname : IsIdentifier name)
      (hparams : ∀ param ∈ params, ∃ name, param = .identifier name ∧ IsIdentifier name)
      (hbody : ∀ statement ∈ body, IsStatement statement) :
      IsStatement ⟨.functionDeclaration (some (.identifier name)) params (.block body) generator
        async⟩

-- The programs of the fragment.
def IsProgram (node : Node) : Prop :=
  ∃ body, node = .program body ∧ ∀ statement ∈ body, IsStatement statement

section Reading

variable {options : PrintOptions} (hoptions : options.IsBlank)

include hoptions

structure ReadsStatement (options : PrintOptions) (node : Node) : Prop where
  closed : node.IsClosed options false
  read : ∀ rest, readStatement (node.tokensIn options false ++ rest) = some (node, rest)

omit hoptions in
theorem ReadsStatement.opening_ne {node : Node} (h : ReadsStatement options node)
    (rest : List SourceToken) : opening (node.tokensIn options false ++ rest) ≠ .nothing := by
  intro hnothing
  have hread := h.read rest
  rw [readStatement, hnothing] at hread
  cases hread

omit hoptions in
theorem ReadsStatement.tokens_ne_nil {node : Node} (h : ReadsStatement options node) :
    node.tokensIn options false ≠ [] := by
  intro hnil
  have hopening := h.opening_ne []
  rw [hnil] at hopening
  exact hopening rfl

omit hoptions in
theorem readStatements_flatten {body : List Node}
    (h : ∀ statement ∈ body, ReadsStatement options statement) {rest : List SourceToken}
    (hrest : opening rest = .nothing) :
    readStatements ((body.map (Node.tokensIn options false)).flatten ++ rest) =
      some (body, rest) := by
  induction body with
  | nil =>
    rw [readStatements]
    exact if_pos hrest
  | cons statement body ih =>
    rw [List.forall_mem_cons] at h
    have hfewer := length_lt_append h.1.tokens_ne_nil
      ((body.map (Node.tokensIn options false)).flatten ++ rest)
    rw [List.map_cons, List.flatten_cons, List.append_assoc, readStatements,
      if_neg (h.1.opening_ne _), h.1.read]
    simp [fewer_eq hfewer, ih h.2]

theorem reads_expressionStatement {expression : Node} (h : ReadsExpression options expression) :
    ReadsStatement options (.statement expression) := by
  obtain ⟨hclosed, htokens⟩ := Node.isClosed_of_form hoptions false
    (.expressionStatement expression) rfl rfl (Template.isSeparable_of_isPlain rfl)
    (by simpa [Form.children] using h.closed)
  have hstatement : (Node.statement expression).tokensIn options false =
      expression.tokensIn options false ++ [.mark ';'] := by
    refine htokens.trans ?_
    simp
    rfl
  refine ⟨hclosed, ?_⟩
  intro rest
  rw [hstatement, List.append_assoc, List.singleton_append, readStatement, h.opening]
  simp [h.read_mark, expect]

theorem reads_block {body : List Node}
    (h : ∀ statement ∈ body, ReadsStatement options statement) :
    ReadsStatement options (.block body) := by
  have htemplate : (Form.braces body).IsSeparable := by
    cases body <;> exact Template.isSeparable_of_isPlain rfl
  obtain ⟨hclosed, htokens⟩ := Node.isClosed_of_form hoptions false (.blockStatement body) rfl rfl
    htemplate fun statement hstatement => (h statement hstatement).closed
  have hblock : (Node.block body).tokensIn options false =
      .mark '\x7b' :: ((body.map (Node.tokensIn options false)).flatten ++ [.mark '\x7d']) := by
    refine htokens.trans ?_
    cases body with
    | nil => rfl
    | cons statement body =>
      simp [Form.braces, Arrangement.between, Template.intercalate_nil_separator]
      rfl
  refine ⟨hclosed, ?_⟩
  intro rest
  rw [hblock, readStatement]
  simp [opening, readStatements_flatten h, expect, fewer_eq]

theorem reads_throw {argument : Node} (h : ReadsExpression options argument) :
    ReadsStatement options ⟨.throwStatement argument⟩ := by
  obtain ⟨hclosed, htokens⟩ := Node.isClosed_of_form hoptions false
    (.throwStatement argument) rfl rfl (Template.isSeparable_of_isPlain rfl)
    (by simpa [Form.children] using h.closed)
  have hthrow : (Node.mk (.throwStatement argument)).tokensIn options false =
      .word "throw" :: (argument.tokensIn options false ++ [.mark ';']) := by
    refine htokens.trans ?_
    simp
    rfl
  refine ⟨hclosed, ?_⟩
  intro rest
  rw [hthrow, readStatement]
  simp [opening, openingOfWord, h.read_mark, expect]

theorem reads_return {argument : Option Node}
    (h : ∀ value ∈ argument, ReadsExpression options value) :
    ReadsStatement options (.returning argument) := by
  have htemplate : Template.IsSeparable
      ([.text "return"] ++ Form.optional " " argument ++ [.text ";"]) := by
    cases argument <;> exact Template.isSeparable_of_isPlain rfl
  obtain ⟨hclosed, htokens⟩ := Node.isClosed_of_form hoptions false
    (.returnStatement argument) rfl rfl htemplate
    (by simpa [Form.children] using fun value hvalue => (h value hvalue).closed)
  have hreturn : (Node.returning argument).tokensIn options false =
      .word "return" :: ((argument.map (Node.tokensIn options false)).getD [] ++ [.mark ';']) := by
    refine htokens.trans ?_
    simp
    rfl
  refine ⟨hclosed, ?_⟩
  intro rest
  rw [hreturn, readStatement]
  simp [opening, openingOfWord, readOptional_mark h, expect]

theorem reads_if {test consequent : Node} (htest : ReadsExpression options test)
    (hconsequent : ReadsStatement options consequent) :
    ReadsStatement options ⟨.ifStatement test consequent none⟩ := by
  obtain ⟨hclosed, htokens⟩ := Node.isClosed_of_form hoptions false
    (.ifStatement test consequent none) rfl rfl (Template.isSeparable_of_isPlain rfl)
    (by simpa [Form.children] using ⟨htest.closed, hconsequent.closed⟩)
  have hif : (Node.mk (.ifStatement test consequent none)).tokensIn options false =
      .word "if" :: .mark '(' :: (test.tokensIn options false ++ .mark ')' ::
        consequent.tokensIn options false) := by
    refine htokens.trans ?_
    simp
    rfl
  refine ⟨hclosed, ?_⟩
  intro rest
  rw [hif, readStatement]
  simp +arith [opening, openingOfWord, htest.read_mark, hconsequent.read, expect, fewer_eq]

theorem reads_while {test body : Node} (htest : ReadsExpression options test)
    (hbody : ReadsStatement options body) :
    ReadsStatement options ⟨.whileStatement test body⟩ := by
  obtain ⟨hclosed, htokens⟩ := Node.isClosed_of_form hoptions false
    (.whileStatement test body) rfl rfl (Template.isSeparable_of_isPlain rfl)
    (by simpa [Form.children] using ⟨htest.closed, hbody.closed⟩)
  have hwhile : (Node.mk (.whileStatement test body)).tokensIn options false =
      .word "while" :: .mark '(' :: (test.tokensIn options false ++ .mark ')' ::
        body.tokensIn options false) := by
    refine htokens.trans ?_
    simp
    rfl
  refine ⟨hclosed, ?_⟩
  intro rest
  rw [hwhile, readStatement]
  simp +arith [opening, openingOfWord, htest.read_mark, hbody.read, expect, fewer_eq]

structure ReadsDeclarator (options : PrintOptions) (node : Node) : Prop where
  closed : node.IsClosed options false
  tokens : ∃ name init, node = .declarator name init ∧
    (∀ value ∈ init, ReadsExpression options value) ∧
    node.tokensIn options false =
      .word name :: (init.map (.mark '=' :: ·.tokensIn options false)).getD []

theorem reads_declarator {node : Node} (h : IsDeclarator node) : ReadsDeclarator options node := by
  obtain ⟨name, init, rfl, hname, hinit⟩ := h
  obtain ⟨hid, hidTokens⟩ := isClosed_identifier hoptions hname.1
  have hvalue : ∀ value ∈ init, ReadsExpression options value :=
    fun value hvalue => reads_expression hoptions (hinit value hvalue)
  have htemplate : Template.IsSeparable
      ([Piece.part (Node.identifier name)] ++ Form.optional " = " init) := by
    cases init <;> exact Template.isSeparable_of_isPlain rfl
  obtain ⟨hclosed, htokens⟩ := Node.isClosed_of_form hoptions false
    (.variableDeclarator (.identifier name) init) rfl rfl htemplate
    (by simpa [Form.children] using ⟨hid, fun value hv => (hvalue value hv).closed⟩)
  refine ⟨hclosed, name, init, rfl, hvalue, htokens.trans ?_⟩
  cases init with
  | none => simp [hidTokens]
  | some value =>
    simp [hidTokens]
    rfl

omit hoptions in
-- What is assigned in a declarator is read up to the next one or the end of the list.
theorem readOptional_skip {init : Option Node}
    (h : ∀ value ∈ init, ReadsExpression options value) {c : Char} (hc : c = ',' ∨ c = ';')
    (rest : List SourceToken) :
    readOptional (skip '=' ((init.map (.mark '=' :: ·.tokensIn options false)).getD [] ++
      .mark c :: rest)) = some (init, .mark c :: rest) := by
  have hlink : c ∉ ['.', '[', '('] := by
    rcases hc with rfl | rfl <;> decide
  have hmark := readOptional_mark h hlink rest
  cases init with
  | none =>
    have hne : '=' ≠ c := by
      rcases hc with rfl | rfl <;> decide
    simpa [skip, hne] using hmark
  | some value => simpa [skip] using hmark

omit hoptions in
theorem readDeclarators_intercalate {declarators : List Node}
    (h : ∀ declarator ∈ declarators, ReadsDeclarator options declarator) (rest : List SourceToken) :
    readDeclarators ([.mark ','].intercalate (declarators.map (Node.tokensIn options false)) ++
      .mark ';' :: rest) = some (declarators, .mark ';' :: rest) := by
  induction declarators with
  | nil =>
    rw [readDeclarators]
    · rfl
    · rintro _ _ ⟨⟩
  | cons declarator declarators ih =>
    rw [List.forall_mem_cons] at h
    obtain ⟨name, init, rfl, hinit, htokens⟩ := h.1.tokens
    obtain ⟨c, tail, hc, hlist, hskip⟩ := exists_mark_intercalate
      ((Node.declarator name init).tokensIn options false)
      (declarators.map (Node.tokensIn options false)) (by decide : ';' ≠ ',') rest
    have hne : (Node.declarator name init).tokensIn options false ≠ [] := by simp [htokens]
    have hfewer := length_skip_lt ',' hne (.mark c :: tail)
    rw [hskip, htokens, List.cons_append] at hfewer
    rw [List.map_cons, hlist, htokens, List.cons_append, readDeclarators,
      readOptional_skip hinit hc]
    simp [hskip, fewer_eq hfewer, ih h.2]

structure ReadsDeclaration (options : PrintOptions) (node : Node) : Prop where
  closed : ∀ inLoopHead, node.IsClosed options inLoopHead
  read : ∃ kind core,
    (∀ rest, opening (.word kind.keyword :: (core ++ rest)) = .declaration kind) ∧
    (∀ rest, readDeclaration kind (core ++ .mark ';' :: rest) = some (node, .mark ';' :: rest)) ∧
    node.tokensIn options true = .word kind.keyword :: core ∧
    node.tokensIn options false = .word kind.keyword :: (core ++ [.mark ';'])

omit hoptions in
theorem exists_intercalate_eq {declarators : List Node} (hne : declarators ≠ [])
    (h : ∀ declarator ∈ declarators, ReadsDeclarator options declarator) :
    ∃ name rest, [.mark ','].intercalate (declarators.map (Node.tokensIn options false)) =
      .word name :: rest := by
  cases declarators with
  | nil => exact absurd rfl hne
  | cons declarator declarators =>
    obtain ⟨name, init, -, -, htokens⟩ := (h declarator (by simp)).tokens
    cases declarators with
    | nil => exact ⟨name, _, by rw [List.map_singleton, List.intercalate_singleton, htokens]⟩
    | cons next declarators =>
      exact ⟨name, _, by
        rw [List.map_cons, List.map_cons, List.intercalate_cons_cons, htokens, List.append_assoc,
          List.cons_append]⟩

theorem reads_declaration {node : Node} (h : IsDeclaration node) :
    ReadsDeclaration options node := by
  obtain ⟨kind, declarators, rfl, hne, hdeclarators⟩ := h
  have hread : ∀ declarator ∈ declarators, ReadsDeclarator options declarator :=
    fun declarator hmem => reads_declarator hoptions (hdeclarators declarator hmem)
  have hform (inLoopHead : Bool) := Node.isClosed_of_form hoptions inLoopHead
    (.variableDeclaration kind declarators) rfl rfl
    (by cases kind <;> cases inLoopHead <;> exact Template.isSeparable_of_isPlain rfl)
    fun declarator hmem => (hread declarator hmem).closed
  have hkeyword : tokens (kind.keyword ++ " ").toList = [.word kind.keyword] := by
    cases kind <;> rfl
  have htokens (inLoopHead : Bool) :
      (Node.declaration kind declarators).tokensIn options inLoopHead = .word kind.keyword ::
        ([.mark ','].intercalate (declarators.map (Node.tokensIn options false)) ++
          tokens (Form.terminator inLoopHead).toList) := by
    refine (hform inLoopHead).2.trans ?_
    simp only [Template.map_cons, Template.map_nil, Piece.map_text, Piece.map_parts,
      Template.tokens_cons_text, Template.tokens_cons_parts, Template.tokens_nil, hkeyword,
      Arrangement.between, List.append_nil, List.singleton_append]
  refine ⟨fun inLoopHead => (hform inLoopHead).1, kind, _, ?_, ?_,
    (htokens true).trans (congrArg _ (List.append_nil _)), htokens false⟩
  · intro rest
    obtain ⟨name, core, hcore⟩ := exists_intercalate_eq hne hread
    rw [hcore]
    cases kind <;> rfl
  · intro rest
    rw [readDeclaration, readDeclarators_intercalate hread]
    rfl

theorem reads_declarationStatement {node : Node} (h : IsDeclaration node) :
    ReadsStatement options node := by
  obtain ⟨hclosed, kind, core, hopening, hread, -, htokens⟩ := reads_declaration hoptions h
  refine ⟨hclosed false, ?_⟩
  intro rest
  rw [htokens, List.cons_append, List.append_assoc, readStatement, hopening]
  simp [hread, expect]

-- Only declarations are written otherwise in the head of a loop.
theorem reads_inHead {node : Node} (h : IsExpression node) :
    node.IsClosed options true ∧ node.tokensIn options true = node.tokensIn options false := by
  have htemplate : node.form.markHead.template true = node.form.markHead.template false := by
    cases h <;> rfl
  have hprint : node.printIn options true = node.printIn options false := by
    rw [Node.printIn_eq, htemplate, ← Node.printIn_eq]
  have hclosed := (reads_expression hoptions h).closed
  rw [Node.IsClosed, Node.tokensIn, Node.textIn, hprint]
  exact ⟨hclosed, rfl⟩

theorem isClosed_init {node : Node} (h : IsExpression node ∨ IsDeclaration node) :
    node.IsClosed options true := by
  rcases h with h | h
  · exact (reads_inHead hoptions h).1
  · exact (reads_declaration hoptions h).closed true

theorem readInit_mark {init : Option Node}
    (h : ∀ part ∈ init, IsExpression part ∨ IsDeclaration part) (rest : List SourceToken) :
    readInit ((init.map (Node.tokensIn options true)).getD [] ++ .mark ';' :: rest) =
      some (init, .mark ';' :: rest) := by
  cases init with
  | none => rfl
  | some part =>
    rcases h part rfl with h | h
    · have hpart := reads_expression hoptions h
      simp [readInit, (reads_inHead hoptions h).2, hpart.opening, readOptional, hpart.read_mark]
    · obtain ⟨-, kind, core, hopening, hread, htokens, -⟩ := reads_declaration hoptions h
      simp [readInit, htokens, hopening, hread]

theorem reads_for {init test update : Option Node} {body : Node}
    (hinit : ∀ part ∈ init, IsExpression part ∨ IsDeclaration part)
    (htest : ∀ part ∈ test, ReadsExpression options part)
    (hupdate : ∀ part ∈ update, ReadsExpression options part)
    (hbody : ReadsStatement options body) :
    ReadsStatement options ⟨.forStatement init test update body⟩ := by
  have hchildren : ∀ part ∈ (Form.forStatement init test update body).markHead.children,
      part.2.IsClosed options part.1 := by
    have hhead : ∀ part ∈ init, part.IsClosed options true :=
      fun part hpart => isClosed_init hoptions (hinit part hpart)
    have htestClosed : ∀ part ∈ test, part.IsClosed options false :=
      fun part hpart => (htest part hpart).closed
    have hupdateClosed : ∀ part ∈ update, part.IsClosed options false :=
      fun part hpart => (hupdate part hpart).closed
    simp_all [Form.markHead, Form.children, or_imp, forall_and, hbody.closed]
  obtain ⟨hclosed, htokens⟩ := Node.isClosed_of_template hoptions false
    ⟨.forStatement init test update body⟩ rfl
    (by cases init <;> cases test <;> cases update <;> exact Template.isSeparable_of_isPlain rfl)
    hchildren
  have hfor : (Node.mk (.forStatement init test update body)).tokensIn options false =
      .word "for" :: .mark '(' :: ((init.map (Node.tokensIn options true)).getD [] ++ .mark ';' ::
        ((test.map (Node.tokensIn options false)).getD [] ++ .mark ';' ::
          ((update.map (Node.tokensIn options false)).getD [] ++ .mark ')' ::
            body.tokensIn options false))) := by
    refine htokens.trans ?_
    cases init <;> cases test <;> cases update <;> simp <;> rfl
  refine ⟨hclosed, ?_⟩
  intro rest
  have hfewer : (body.tokensIn options false ++ rest).length <
      ((Node.mk (.forStatement init test update body)).tokensIn options false ++ rest).length := by
    rw [hfor]
    simp only [List.length_append, List.length_cons]
    omega
  rw [hfor, List.cons_append, List.cons_append] at hfewer ⊢
  rw [readStatement]
  simp only [opening, openingOfWord, List.tail_cons, List.append_assoc, List.cons_append, expect,
    reduceIte, Option.bind_eq_bind, Option.bind_some, readInit_mark hoptions hinit,
    readOptional_mark htest (c := ';') (by decide),
    readOptional_mark hupdate (c := ')') (by decide)]
  simp only [fewer_eq hfewer, Option.bind_some, hbody.read]
  rfl

omit hoptions in
theorem readParams_intercalate {params : List Node}
    (h : ∀ param ∈ params, ∃ name, param = .identifier name ∧
      param.tokensIn options false = [.word name]) (rest : List SourceToken) :
    readParams ([.mark ','].intercalate (params.map (Node.tokensIn options false)) ++
      .mark ')' :: rest) = (params, .mark ')' :: rest) := by
  induction params with
  | nil => rfl
  | cons param params ih =>
    rw [List.forall_mem_cons] at h
    obtain ⟨⟨name, rfl, htokens⟩, hrest⟩ := h
    have hparams := ih hrest
    cases params with
    | nil =>
      rw [List.map_singleton, List.intercalate_singleton, htokens]
      rfl
    | cons next params =>
      rw [List.map_cons] at hparams
      rw [List.map_cons, List.map_cons, List.intercalate_cons_cons, htokens]
      simp [readParams, hparams]

theorem reads_function {name : String} {params body : List Node} (generator async : Bool)
    (hname : IsIdentifier name)
    (hparams : ∀ param ∈ params, ∃ name, param = .identifier name ∧ IsIdentifier name)
    (hbody : ∀ statement ∈ body, ReadsStatement options statement) :
    ReadsStatement options ⟨.functionDeclaration (some (.identifier name)) params (.block body)
      generator async⟩ := by
  obtain ⟨hid, hidTokens⟩ := isClosed_identifier hoptions hname.1
  have hblock := reads_block hoptions hbody
  have hparam : ∀ param ∈ params, param.IsClosed options false ∧ ∃ name,
      param = .identifier name ∧ param.tokensIn options false = [.word name] := by
    intro param hmem
    obtain ⟨name, rfl, hname⟩ := hparams param hmem
    have hidentifier := isClosed_identifier hoptions hname.1
    exact ⟨hidentifier.1, name, rfl, hidentifier.2⟩
  obtain ⟨hclosed, htokens⟩ := Node.isClosed_of_form hoptions false
    (.functionDeclaration (some (.identifier name)) params (.block body) generator async) rfl rfl
    (by cases generator <;> cases async <;> exact Template.isSeparable_of_isPlain rfl)
    (by simp_all [Form.children, or_imp, forall_and, hblock.closed])
  have hfunction : (Node.mk (.functionDeclaration (some (.identifier name)) params (.block body)
      generator async)).tokensIn options false =
        (if async then [.word "async"] else []) ++ .word "function" ::
          ((if generator then [.mark '*'] else []) ++ .word name :: .mark '(' ::
            ([.mark ','].intercalate (params.map (Node.tokensIn options false)) ++ .mark ')' ::
              (Node.block body).tokensIn options false)) := by
    refine htokens.trans ?_
    cases generator <;> cases async <;> simp [Form.function, hidTokens] <;> rfl
  refine ⟨hclosed, ?_⟩
  intro rest
  have hread := readParams_intercalate (fun param hmem => (hparam param hmem).2)
    ((Node.block body).tokensIn options false ++ rest)
  rw [hfunction, readStatement]
  cases generator <;> cases async <;>
    simp +arith [opening, openingOfWord, skip, expect, hread, hblock.read, fewer_eq]

theorem reads_statement {node : Node} (h : IsStatement node) : ReadsStatement options node := by
  induction h with
  | expression h => exact reads_expressionStatement hoptions (reads_expression hoptions h)
  | block h ih => exact reads_block hoptions ih
  | returning h =>
    exact reads_return hoptions fun value hvalue => reads_expression hoptions (h value hvalue)
  | throwing h => exact reads_throw hoptions (reads_expression hoptions h)
  | declaration h => exact reads_declarationStatement hoptions h
  | branch htest hconsequent ih => exact reads_if hoptions (reads_expression hoptions htest) ih
  | whileLoop htest hbody ih => exact reads_while hoptions (reads_expression hoptions htest) ih
  | forLoop hinit htest hupdate hbody ih =>
    exact reads_for hoptions hinit (fun part hpart => reads_expression hoptions (htest part hpart))
      (fun part hpart => reads_expression hoptions (hupdate part hpart)) ih
  | function hname hparams hbody ih => exact reads_function hoptions _ _ hname hparams ih

-- The text of a program is read back as the program.
theorem read_print {program : Node} (h : IsProgram program) :
    ∃ text, program.print options = .ok text ∧ Node.read text = some program := by
  obtain ⟨body, rfl, hbody⟩ := h
  have hread : ∀ statement ∈ body, ReadsStatement options statement :=
    fun statement hmem => reads_statement hoptions (hbody statement hmem)
  obtain ⟨⟨text, htext, -⟩, htokens⟩ := Node.isClosed_of_form hoptions false (.program body) rfl rfl
    (Template.isSeparable_of_isPlain rfl)
    fun statement hmem => (hread statement hmem).closed
  refine ⟨text, ?_, ?_⟩
  · have hroot : (Printer.ofTree (.program body) options).print (.root (.program body)) = _ :=
      Printer.print_eq_printIn_inLoopHead (Cursor.self_mem_preorder (.root (.program body)))
    rw [Printer.inLoopHead_root] at hroot
    exact hroot.trans htext
  · have hflat : tokens text.toList = (body.map (Node.tokensIn options false)).flatten := by
      rw [Node.tokensIn, Node.textIn, htext] at htokens
      exact htokens.trans ((List.append_nil _).trans (Template.intercalate_nil_separator _))
    have hstatements : readStatements (_ ++ []) = _ := readStatements_flatten hread rfl
    rw [List.append_nil] at hstatements
    simp [Node.read, hflat, hstatements]

end Reading

-- No two programs of the fragment have the same text.
theorem print_injective_on_programs {options : PrintOptions} (hoptions : options.IsBlank)
    {first second : Node} (hfirst : IsProgram first) (hsecond : IsProgram second)
    (h : first.print options = second.print options) : first = second := by
  obtain ⟨text, hprint, hread⟩ := read_print hoptions hfirst
  obtain ⟨other, hprint', hread'⟩ := read_print hoptions hsecond
  rw [hprint, hprint'] at h
  obtain rfl : text = other := Except.ok.inj h
  exact Option.some.inj (hread.symm.trans hread')

-- A loop whose head declares `i` and mentions a variable by the name of `let`.
def headed : Node :=
  .program [⟨.forStatement (some (.declaration .let [.declarator "i" (some (.string "a'\n"))])) none
    (some (.call (.member (.identifier "let") "next") [.identifier "i"]))
    (.block [.returning none])⟩]

-- The same tree spelled out.
def spelled : Node :=
  ⟨.program [⟨.forStatement
    (some ⟨.variableDeclaration .let
      [⟨.variableDeclarator ⟨.identifier "i"⟩ (some ⟨.literal (.string "a'\n") none⟩)⟩]⟩)
    none
    (some ⟨.callExpression ⟨.memberExpression ⟨.identifier "let"⟩ ⟨.identifier "next"⟩ false⟩
      [⟨.identifier "i"⟩]⟩)
    ⟨.blockStatement [⟨.returnStatement none⟩]⟩⟩]⟩

theorem isProgram_headed : IsProgram headed := by
  have hdeclarator : IsDeclarator (.declarator "i" (some (.string "a'\n"))) :=
    ⟨"i", some (.string "a'\n"), rfl, by decide, by simpa using IsExpression.string _⟩
  have hdeclaration : IsDeclaration
      (.declaration .let [.declarator "i" (some (.string "a'\n"))]) :=
    ⟨.let, _, rfl, by simp, by simpa using hdeclarator⟩
  have hi : IsExpression (.identifier "i") := .identifier (by decide)
  have hlet : IsExpression (.identifier "let") := .identifier (by decide)
  have hcall : IsExpression (.call (.member (.identifier "let") "next") [.identifier "i"]) :=
    .call (.member hlet (by decide)) (by simpa using hi)
  have hreturn : IsStatement (.returning none) := .returning nofun
  have hbody : IsStatement (.block [.returning none]) := .block (by simpa using hreturn)
  refine ⟨_, rfl, List.forall_mem_singleton.mpr (.forLoop ?_ nofun ?_ hbody)⟩
  · rintro _ ⟨⟩
    exact .inr hdeclaration
  · rintro _ ⟨⟩
    exact hcall

theorem print_injective_on_programs_headed :
    (({} : PrintOptions).IsBlank ∧ IsProgram headed ∧ IsProgram spelled ∧
      headed.print {} = .ok "for (let i = 'a\\'\\n';; let.next(i)) \x7b\n  return;\n\x7d" ∧
      spelled.print {} = .ok "for (let i = 'a\\'\\n';; let.next(i)) \x7b\n  return;\n\x7d") ∧
    headed = spelled := by
  have hoptions : ({} : PrintOptions).IsBlank :=
    ⟨List.all_eq_true.mp rfl, List.all_eq_true.mp rfl⟩
  have hprint : headed.print {} =
      .ok "for (let i = 'a\\'\\n';; let.next(i)) \x7b\n  return;\n\x7d" := by cbv
  have hspelled : spelled.print {} =
      .ok "for (let i = 'a\\'\\n';; let.next(i)) \x7b\n  return;\n\x7d" := by cbv
  exact ⟨⟨hoptions, isProgram_headed, isProgram_headed, hprint, hspelled⟩,
    print_injective_on_programs hoptions isProgram_headed isProgram_headed
      (hprint.trans hspelled.symm)⟩

end Estree
