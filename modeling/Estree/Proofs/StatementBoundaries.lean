import Estree.Proofs.Indentation
import Estree.Proofs.LoopHeads
import Estree.Proofs.Tokens

namespace Estree

namespace Text

-- What is left of a text without its spaces and line breaks.
def squeeze (chars : List Char) : List Char :=
  chars.filter fun c => c ≠ ' ' ∧ c ≠ '\n'

@[simp] theorem squeeze_nil : squeeze [] = [] := rfl

@[simp] theorem squeeze_cons (c : Char) (chars : List Char) :
    squeeze (c :: chars) = if c ≠ ' ' ∧ c ≠ '\n' then c :: squeeze chars else squeeze chars := by
  simp [squeeze, List.filter_cons]

@[simp] theorem squeeze_append (a b : List Char) : squeeze (a ++ b) = squeeze a ++ squeeze b :=
  List.filter_append ..

theorem squeeze_eq_self {chars : List Char} (h : ∀ c ∈ chars, c ≠ ' ' ∧ c ≠ '\n') :
    squeeze chars = chars :=
  List.filter_eq_self.mpr fun c hc => decide_eq_true (h c hc)

theorem squeeze_hang {padding : List Char} (h : squeeze padding = []) (chars : List Char) :
    squeeze (hang padding chars) = squeeze chars := by
  induction chars with
  | nil => rfl
  | cons c chars ih =>
    by_cases hc : c = '\n'
    · subst hc
      change squeeze (padding ++ hang padding chars) = squeeze chars
      rw [squeeze_append, h, ih, List.nil_append]
    · change squeeze (hang padding ([c] ++ chars)) = squeeze ([c] ++ chars)
      rw [hang_append, hang_cons_of_ne hc, squeeze_append, squeeze_append, ih, hang_nil]

-- Lines of their own add nothing but white space.
theorem squeeze_lines (texts : List (List Char)) :
    squeeze (['\n'].intercalate texts) = texts.flatMap squeeze := by
  induction texts with
  | nil => rfl
  | cons text texts ih =>
    cases texts with
    | nil => simp
    | cons next texts => simp [List.intercalate_cons_cons, ih]

end Text

open Text

-- A statement that runs its body on a condition.
inductive Guard where
  | loop
  | branch
  deriving DecidableEq

namespace Guard

def keyword : Guard → String
  | loop => "while"
  | branch => "if"

theorem keyword_injective {a b : Guard} (h : a.keyword = b.keyword) : a = b := by
  cases a <;> cases b <;> first | rfl | exact absurd h (by decide)

theorem avoids_keyword (guard : Guard) : Avoids ['(', '\x7b', '\x7d'] guard.keyword.toList := by
  cases guard <;> decide

end Guard

-- A name that holds no mark of statements and no white space, and is no keyword of a guard. All
-- identifiers that are no reserved words are such names.
@[ext]
structure PlainName where
  text : String
  plain : Avoids ['(', ')', '\x7b', '\x7d', ' ', '\n'] text.toList
  free : ∀ guard : Guard, text ≠ guard.keyword

namespace PlainName

theorem avoids_text (name : PlainName) {marks : List Char}
    (h : marks ⊆ ['(', ')', '\x7b', '\x7d', ' ', '\n']) : Avoids marks name.text.toList :=
  fun c hc hmark => name.plain c hc (h hmark)

end PlainName

-- Statements that call, and the blocks and guards around them. A bare guard has the empty statement
-- for a body.
inductive Command where
  | call (name : PlainName)
  | block (body : List Command)
  | guarded (guard : Guard) (test : PlainName) (body : Command)
  | bare (guard : Guard) (test : PlainName)

namespace Guard

def node (guard : Guard) (test : PlainName) (body : Node) : Node :=
  match guard with
  | loop => ⟨.whileStatement (.identifier test.text) body⟩
  | branch => ⟨.ifStatement (.identifier test.text) body none⟩

end Guard

namespace Command

theorem induction {motive : Command → Prop} (call : ∀ name, motive (.call name))
    (block : ∀ body, (∀ statement ∈ body, motive statement) → motive (.block body))
    (guarded : ∀ guard test body, motive body → motive (.guarded guard test body))
    (bare : ∀ guard test, motive (.bare guard test)) : ∀ statement, motive statement
  | .call name => call name
  | .block body => block body fun statement _ => induction call block guarded bare statement
  | .guarded guard test body => guarded guard test body (induction call block guarded bare body)
  | .bare guard test => bare guard test

def toNode : Command → Node
  | call name => .statement (.call (.identifier name.text) [])
  | block body => .block (body.map toNode)
  | guarded guard test body => guard.node test body.toNode
  | bare guard test => guard.node test ⟨.emptyStatement⟩

def program (body : List Command) : Node :=
  .program (body.map toNode)

-- The tokens of statements. Nothing in them says where the body of a guard ends.
inductive Token where
  | call (name : PlainName)
  | head (guard : Guard) (test : PlainName)
  | opening
  | closing

namespace Token

-- The letters of a token, the mark that ends them, and what follows.
def front : Token → List Char
  | call name => name.text.toList
  | head guard _ => guard.keyword.toList
  | opening | closing => []

def mark : Token → Char
  | call _ | head _ _ => '('
  | opening => '\x7b'
  | closing => '\x7d'

def back : Token → List Char
  | call _ => [')', ';']
  | head _ test => test.text.toList ++ [')']
  | opening | closing => []

def chars (token : Token) : List Char :=
  token.front ++ token.mark :: token.back

@[simp] theorem chars_call (name : PlainName) :
    (call name).chars = name.text.toList ++ ['(', ')', ';'] := rfl

@[simp] theorem chars_head (guard : Guard) (test : PlainName) :
    (head guard test).chars = guard.keyword.toList ++ '(' :: (test.text.toList ++ [')']) := rfl

@[simp] theorem chars_opening : opening.chars = ['\x7b'] := rfl

@[simp] theorem chars_closing : closing.chars = ['\x7d'] := rfl

end Token

def tokens : Command → List Token
  | call name => [.call name]
  | block body => .opening :: body.flatMap tokens ++ [.closing]
  | guarded guard test body => .head guard test :: body.tokens
  | bare guard test => [.head guard test]

section Spelling

variable {options : PrintOptions}

-- Whether a node is printed, and its text comes down to some tokens.
def Spells (options : PrintOptions) (node : Node) (tokens : List Token) : Prop :=
  ∃ text, node.printIn options false = .ok text ∧ squeeze text.toList = tokens.flatMap Token.chars

theorem spells_of_template {node : Node} (hmark : node.form.markHead = node.form.map (false, ·))
    {template : Template Node} (htemplate : node.form.template false = .ok template)
    {texts : List String} (htexts : template.parts.mapM (Node.printIn options false) = .ok texts)
    {tokens : List Token}
    (h : squeeze (template.assemble options texts).toList = tokens.flatMap Token.chars) :
    Spells options node tokens :=
  ⟨_, Node.printIn_of_template hmark htemplate htexts rfl, h⟩

theorem squeeze_name (name : PlainName) : squeeze name.text.toList = name.text.toList := by
  refine squeeze_eq_self fun c hc => ⟨?_, ?_⟩ <;> rintro rfl <;>
    exact name.plain _ hc (by decide)

theorem spells_call (name : PlainName) : Spells options (call name).toNode [.call name] := by
  have hcallee : [Node.identifier name.text].mapM (Node.printIn options false) = .ok [name.text] :=
    mapM_cons_of_ok (Node.printIn_identifier options name.text) rfl
  have hcall : (Node.call (.identifier name.text) []).printIn options false =
      .ok (name.text ++ "()") := by
    refine Node.printIn_of_template rfl rfl hcallee ?_
    simp [Template.assemble, Piece.part, Piece.list, Arrangement.write]
  have hcalls : [Node.call (.identifier name.text) []].mapM (Node.printIn options false) =
      .ok [name.text ++ "()"] := mapM_cons_of_ok hcall rfl
  rw [toNode]
  refine spells_of_template rfl rfl hcalls ?_
  simp [Template.assemble, Piece.part, Arrangement.write, squeeze_name]

theorem spells_emptyStatement : Spells options ⟨.emptyStatement⟩ [] :=
  spells_of_template rfl rfl rfl rfl

theorem spells_guard (guard : Guard) (test : PlainName) {body : Node} {tokens : List Token}
    (h : Spells options body tokens) :
    Spells options (guard.node test body) (.head guard test :: tokens) := by
  obtain ⟨text, hbody, htext⟩ := h
  have hparts : [Node.identifier test.text, body].mapM (Node.printIn options false) =
      .ok [test.text, text] :=
    mapM_cons_of_ok (Node.printIn_identifier options test.text) (mapM_cons_of_ok hbody rfl)
  cases guard with
  | loop | branch =>
    refine spells_of_template rfl rfl hparts ?_
    simp [Template.assemble, Piece.part, Arrangement.write, squeeze_name, Guard.keyword, htext]

theorem exists_texts {body : List Command}
    (h : ∀ statement ∈ body, Spells options statement.toNode statement.tokens) :
    ∃ texts, (body.map toNode).mapM (Node.printIn options false) = .ok texts ∧
      texts.length = body.length ∧
      (texts.map String.toList).flatMap squeeze = (body.flatMap tokens).flatMap Token.chars := by
  induction body with
  | nil => exact ⟨[], rfl, rfl, rfl⟩
  | cons statement body ih =>
    rw [List.forall_mem_cons] at h
    obtain ⟨text, hprint, htext⟩ := h.1
    obtain ⟨texts, hprints, hlength, htexts⟩ := ih h.2
    refine ⟨text :: texts, mapM_cons_of_ok hprint hprints, by simp [hlength], ?_⟩
    simp [htext, htexts]

theorem spells_block (hoptions : squeeze options.indentUnit.toList = []) {body : List Command}
    (h : ∀ statement ∈ body, Spells options statement.toNode statement.tokens) :
    Spells options (.block (body.map toNode)) (.opening :: body.flatMap tokens ++ [.closing]) := by
  obtain ⟨texts, hprints, hlength, htexts⟩ := exists_texts h
  refine spells_of_template rfl rfl (by rwa [Form.parts_braces]) ?_
  cases body with
  | nil => simp [Form.braces, Template.assemble]
  | cons statement body =>
    have htake : texts.take (List.map toNode (statement :: body)).length = texts :=
      List.take_of_length_le (by simp [hlength])
    have hnested : squeeze (Arrangement.nested.write options texts).toList =
        ((statement :: body).flatMap tokens).flatMap Token.chars := by
      rw [← htexts, ← squeeze_lines]
      simp [Arrangement.write, toList_indentWith_eq_hang, squeeze_hang hoptions, hoptions]
    simp only [List.map_cons, Form.braces, Template.assemble] at htake ⊢
    rw [htake]
    simp [hnested]

theorem spells (hoptions : squeeze options.indentUnit.toList = []) (statement : Command) :
    Spells options statement.toNode statement.tokens := by
  induction statement using induction with
  | call name =>
    rw [tokens]
    exact spells_call name
  | block body ih =>
    rw [toNode, tokens]
    exact spells_block hoptions ih
  | guarded guard test body ih =>
    rw [toNode, tokens]
    exact spells_guard guard test ih
  | bare guard test =>
    rw [toNode, tokens]
    exact spells_guard guard test spells_emptyStatement

-- The text of a program comes down to the tokens of its statements.
theorem exists_print_program (hoptions : squeeze options.indentUnit.toList = [])
    (body : List Command) :
    ∃ text, (program body).print options = .ok text ∧
      squeeze text.toList = (body.flatMap tokens).flatMap Token.chars := by
  obtain ⟨texts, hprints, hlength, htexts⟩ :=
    exists_texts fun statement (_ : statement ∈ body) => spells hoptions statement
  rw [Printer.print_root]
  refine spells_of_template rfl rfl (by simpa using hprints) ?_
  rw [← htexts, ← squeeze_lines]
  simp [Template.assemble, Piece.list, Arrangement.write, ← hlength]

end Spelling

namespace Token

theorem chars_ne_nil (token : Token) : token.chars ≠ [] := by
  cases token <;> simp [chars]

theorem avoids_front (token : Token) : Avoids ['(', '\x7b', '\x7d'] token.front := by
  cases token with
  | call name => exact name.avoids_text (by simp)
  | head guard test => exact guard.avoids_keyword
  | opening | closing => exact nofun

theorem mark_mem (token : Token) : token.mark ∈ ['(', '\x7b', '\x7d'] := by
  cases token <;> simp [mark]

-- A text starts with one token at most: letters end at a mark, and no name is a keyword.
theorem eq_of_chars_append_eq {a b : Token} {rest rest' : List Char}
    (h : a.chars ++ rest = b.chars ++ rest') : a = b ∧ rest = rest' := by
  rw [chars, chars, List.append_assoc, List.append_assoc, List.cons_append, List.cons_append] at h
  obtain ⟨hfront, hmark, hback⟩ :=
    (avoids_front a).eq_of_append_cons_eq (avoids_front b) (mark_mem a) (mark_mem b) h
  cases a with
  | call name =>
    cases b with
    | call other =>
      have hname : name = other := PlainName.ext (String.toList_inj.mp hfront)
      exact ⟨congrArg call hname, by simpa [back] using hback⟩
    | head guard test => exact absurd (String.toList_inj.mp hfront) (name.free guard)
    | opening | closing => cases hmark
  | head guard test =>
    cases b with
    | call other => exact absurd (String.toList_inj.mp hfront).symm (other.free guard)
    | head guard' test' =>
      obtain rfl := Guard.keyword_injective (String.toList_inj.mp hfront)
      rw [back, back, List.append_assoc, List.append_assoc] at hback
      have htests (name : PlainName) : Avoids [')'] name.text.toList := name.avoids_text (by simp)
      obtain ⟨htest, -, hrest⟩ := (htests test).eq_of_append_cons_eq (htests test')
        List.mem_cons_self List.mem_cons_self hback
      exact ⟨congrArg (head guard) (PlainName.ext (String.toList_inj.mp htest)), hrest⟩
    | opening | closing => cases hmark
  | opening | closing => cases b <;> first | exact ⟨rfl, hback⟩ | cases hmark

theorem flatMap_chars_injective {first second : List Token}
    (h : first.flatMap chars = second.flatMap chars) : first = second := by
  induction first generalizing second with
  | nil =>
    cases second with
    | nil => rfl
    | cons b second => simp [chars_ne_nil] at h
  | cons a first ih =>
    cases second with
    | nil => simp [chars_ne_nil] at h
    | cons b second =>
      rw [List.flatMap_cons, List.flatMap_cons] at h
      obtain ⟨rfl, hrest⟩ := eq_of_chars_append_eq h
      rw [ih hrest]

end Token

-- A guard takes the statement behind it for its body.
def seize (guard : Guard) (test : PlainName) : List Command → List Command
  | [] => [.bare guard test]
  | statement :: others => .guarded guard test statement :: others

mutual

-- A statement in front of others. If it ends in a bare guard, the next one becomes its body.
def prepend : Command → List Command → List Command
  | call name, others => .call name :: others
  | block body, others => .block (capture body) :: others
  | guarded guard test body, others => seize guard test (prepend body others)
  | bare guard test, others => seize guard test others

-- Statements as their text shows them.
def capture : List Command → List Command
  | [] => []
  | statement :: others => prepend statement (capture others)

end

section Capture

theorem tokens_seize (guard : Guard) (test : PlainName) (others : List Command) :
    (seize guard test others).flatMap tokens = .head guard test :: others.flatMap tokens := by
  cases others <;> simp [seize, tokens]

theorem tokens_capture_of {body : List Command}
    (h : ∀ statement ∈ body, ∀ others,
      (prepend statement others).flatMap tokens = statement.tokens ++ others.flatMap tokens) :
    (capture body).flatMap tokens = body.flatMap tokens := by
  induction body with
  | nil => rfl
  | cons statement body ih =>
    rw [List.forall_mem_cons] at h
    rw [capture, h.1, ih h.2, List.flatMap_cons]

-- A statement that is taken for a body leaves no mark in the text.
theorem tokens_prepend (statement : Command) (others : List Command) :
    (prepend statement others).flatMap tokens = statement.tokens ++ others.flatMap tokens := by
  induction statement using induction generalizing others with
  | call name => simp [prepend, tokens]
  | block body ih => simp [prepend, tokens, tokens_capture_of ih]
  | guarded guard test body ih => simp [prepend, tokens, tokens_seize, ih]
  | bare guard test => simp [prepend, tokens, tokens_seize]

-- Reading goes from right to left. The frames are the statements behind a token, those of the
-- innermost block first.
def Token.read : Token → List (List Command) → List (List Command)
  | call name, top :: outer => (.call name :: top) :: outer
  | head guard test, top :: outer => seize guard test top :: outer
  | opening, body :: top :: outer => (.block body :: top) :: outer
  | closing, frames => [] :: frames
  | _, frames => frames

theorem read_body_of {body : List Command} (outer : List (List Command))
    (h : ∀ statement ∈ body, ∀ top outer,
      statement.tokens.foldr Token.read (top :: outer) = prepend statement top :: outer) :
    (body.flatMap tokens).foldr Token.read ([] :: outer) = capture body :: outer := by
  induction body with
  | nil => rfl
  | cons statement body ih =>
    rw [List.forall_mem_cons] at h
    rw [List.flatMap_cons, List.foldr_append, ih h.2, h.1, capture]

theorem read_tokens (statement : Command) (top : List Command) (outer : List (List Command)) :
    statement.tokens.foldr Token.read (top :: outer) = prepend statement top :: outer := by
  induction statement using induction generalizing top outer with
  | call name => simp [prepend, tokens, Token.read]
  | block body ih =>
    simp [prepend, tokens, Token.read, List.foldr_append, read_body_of (top :: outer) ih]
  | guarded guard test body ih => simp [prepend, tokens, Token.read, ih]
  | bare guard test => simp [prepend, tokens, Token.read]

-- The tokens of statements tell what a reader of them sees, and nothing else.
theorem capture_eq_iff {first second : List Command} :
    capture first = capture second ↔ first.flatMap tokens = second.flatMap tokens := by
  constructor
  · intro h
    rw [← tokens_capture_of fun statement (_ : statement ∈ first) => tokens_prepend statement, h,
      tokens_capture_of fun statement _ => tokens_prepend statement]
  · intro h
    have hread (body : List Command) :
        (body.flatMap tokens).foldr Token.read [[]] = [capture body] :=
      read_body_of [] fun statement _ => read_tokens statement
    have hsame := hread first
    rw [h, hread second] at hsame
    exact (List.cons.inj hsame).1.symm

end Capture

-- Whether a statement ends in a bare guard.
def isOpen : Command → Bool
  | call _ | block _ => false
  | guarded _ _ body => body.isOpen
  | bare _ _ => true

mutual

-- Whether an open statement is the last one wherever it stands.
def isSettled : Command → Bool
  | call _ | bare _ _ => true
  | block body => areSettled body
  | guarded _ _ body => isSettled body

def areSettled : List Command → Bool
  | [] => true
  | statement :: others =>
    isSettled statement && (!statement.isOpen || others.isEmpty) && areSettled others

end

section Settled

theorem capture_of_areSettled {body : List Command} (hbody : areSettled body = true)
    (h : ∀ statement ∈ body, statement.isSettled = true → ∀ others,
      (statement.isOpen = false ∨ others = []) → prepend statement others = statement :: others) :
    capture body = body := by
  induction body with
  | nil => rfl
  | cons statement body ih =>
    rw [List.forall_mem_cons] at h
    simp only [areSettled, Bool.and_eq_true, Bool.or_eq_true, Bool.not_eq_true',
      List.isEmpty_iff] at hbody
    obtain ⟨⟨hstatement, hopen⟩, hbody⟩ := hbody
    rw [capture, ih hbody h.2, h.1 hstatement body hopen]

theorem prepend_of_isSettled (statement : Command) (h : statement.isSettled = true)
    (others : List Command) (hopen : statement.isOpen = false ∨ others = []) :
    prepend statement others = statement :: others := by
  induction statement using induction generalizing others with
  | call name => rw [prepend]
  | block body ih =>
    rw [isSettled] at h
    rw [prepend, capture_of_areSettled h ih]
  | guarded guard test body ih =>
    rw [isSettled] at h
    rw [isOpen] at hopen
    rw [prepend, ih h others hopen, seize]
  | bare guard test =>
    obtain rfl : others = [] := hopen.resolve_left nofun
    rfl

theorem areSettled_seize (guard : Guard) (test : PlainName) {others : List Command}
    (h : areSettled others = true) : areSettled (seize guard test others) = true := by
  cases others with
  | nil => rfl
  | cons statement others => simpa [seize, areSettled, isSettled, isOpen] using h

theorem areSettled_capture_of {body : List Command}
    (h : ∀ statement ∈ body, ∀ others, areSettled others = true →
      areSettled (prepend statement others) = true) : areSettled (capture body) = true := by
  induction body with
  | nil => rfl
  | cons statement body ih =>
    rw [List.forall_mem_cons] at h
    exact h.1 _ (ih h.2)

theorem areSettled_prepend (statement : Command) {others : List Command} (h : areSettled others = true) :
    areSettled (prepend statement others) = true := by
  induction statement using induction generalizing others with
  | call name => simpa [prepend, areSettled, isSettled, isOpen] using h
  | block body ih =>
    have hbody := areSettled_capture_of fun statement hmem others => ih statement hmem
    simpa [prepend, areSettled, isSettled, isOpen, hbody] using h
  | guarded guard test body ih => exact areSettled_seize guard test (ih h)
  | bare guard test => exact areSettled_seize guard test h

theorem capture_eq_self_iff {body : List Command} : capture body = body ↔ areSettled body = true := by
  constructor
  · intro h
    rw [← h]
    exact areSettled_capture_of fun statement _ _ => areSettled_prepend statement
  · intro h
    exact capture_of_areSettled h fun statement _ => prepend_of_isSettled statement

end Settled

end Command

open Command

-- Programs have the same text up to white space if and only if a reader of it sees the same program
-- to whom the statement behind a bare guard is the body of the guard. The reader sees the program
-- itself if and only if no bare guard has a statement behind it.
theorem squeeze_print_eq_iff {options : PrintOptions}
    (hoptions : squeeze options.indentUnit.toList = []) (first second : List Command) :
    ∃ text text', (program first).print options = .ok text ∧
      (program second).print options = .ok text' ∧
      (squeeze text.toList = squeeze text'.toList ↔ capture first = capture second) ∧
      (capture first = first ↔ areSettled first = true) ∧
      (areSettled first = true → areSettled second = true →
        squeeze text.toList = squeeze text'.toList → first = second) := by
  obtain ⟨text, hprint, htext⟩ := exists_print_program hoptions first
  obtain ⟨text', hprint', htext'⟩ := exists_print_program hoptions second
  have hiff : squeeze text.toList = squeeze text'.toList ↔ capture first = capture second := by
    rw [htext, htext', capture_eq_iff]
    exact ⟨Token.flatMap_chars_injective, congrArg _⟩
  refine ⟨text, text', hprint, hprint', hiff, capture_eq_self_iff, fun hfirst hsecond h => ?_⟩
  rw [← capture_eq_self_iff.mpr hfirst, ← capture_eq_self_iff.mpr hsecond]
  exact hiff.mp h

def PlainName.a : PlainName := ⟨"a", by decide, by rintro ⟨⟩ <;> decide⟩

def PlainName.f : PlainName := ⟨"f", by decide, by rintro ⟨⟩ <;> decide⟩

-- A call behind the block of a guard, and in it.
theorem squeeze_print_eq_iff_blocks :
    squeeze (PrintOptions.indentUnit {}).toList = [] ∧
      areSettled [.guarded .branch .a (.block [.bare .loop .a]), .call .f] = true ∧
      areSettled [.guarded .branch .a (.block [.guarded .loop .a (.call .f)])] = true ∧
      ∃ text text',
        (program [.guarded .branch .a (.block [.bare .loop .a]), .call .f]).print {} = .ok text ∧
        (program [.guarded .branch .a (.block [.guarded .loop .a (.call .f)])]).print {} =
          .ok text' ∧
        squeeze text.toList ≠ squeeze text'.toList := by
  have hoptions : squeeze (PrintOptions.indentUnit {}).toList = [] := by decide
  obtain ⟨text, text', hprint, hprint', -, -, hsettled⟩ := squeeze_print_eq_iff hoptions
    [.guarded .branch .a (.block [.bare .loop .a]), .call .f]
    [.guarded .branch .a (.block [.guarded .loop .a (.call .f)])]
  exact ⟨hoptions, rfl, rfl, text, text', hprint, hprint', fun h => nomatch hsettled rfl rfl h⟩

-- A loop without a body has the text of a loop around the statement behind it.
theorem print_bareLoop :
    program [.bare .loop .a, .call .f] ≠ program [.guarded .loop .a (.call .f)] ∧
      (program [.bare .loop .a, .call .f]).print {} = .ok "while (a) \nf();" ∧
      (program [.guarded .loop .a (.call .f)]).print {} = .ok "while (a) f();" ∧
      squeeze "while (a) \nf();".toList = squeeze "while (a) f();".toList := by
  refine ⟨?_, by cbv, by cbv, by simp⟩
  simp [program, Node.program]

end Estree
