import Estree.Proofs.OperandReading

namespace Estree

namespace Formula

-- The operand at the very left. An operator in front of an expression is in front of that operand.
def first : Formula → Formula
  | unary op argument => .unary op argument.first
  | binary _ left _ => left.first
  | operand => operand

-- The binary operators from left to right, each with the operand behind it.
def links : Formula → List (BinaryOp × Formula)
  | unary _ argument => argument.links
  | binary op left right => left.links ++ (op, right.first) :: right.links
  | _ => []

-- The text shows the operands and the operators between them, and not how they are grouped.
theorem chars_eq (formula : Formula) :
    formula.chars = formula.first.chars ++ formula.links.flatMap linkChars := by
  induction formula with
  | name id => simp [first, links]
  | unary op argument ih => simp [first, links, chars, ih]
  | update op leading argument ih => simp [first, links]
  | binary op left right ihleft ihright =>
    simp [first, links, chars, linkChars, ihleft, ihright]

-- A binary operator and an operand behind an expression. The operator takes what it can of the
-- right operands of the expression, and else all of it.
def attach : Formula → BinaryOp → Formula → Formula
  | binary top left right, op, operand =>
    if op.bindsInto top then .binary top left (right.attach op operand)
    else .binary op (.binary top left right) operand
  | formula, op, operand => .binary op formula operand

def attachLink (formula : Formula) (link : BinaryOp × Formula) : Formula :=
  formula.attach link.1 link.2

-- The expression as its text shows it.
def regroup (formula : Formula) : Formula :=
  formula.links.foldl attachLink formula.first

section Regrouping

theorem chars_attach (formula : Formula) (op : BinaryOp) (operand : Formula) :
    (formula.attach op operand).chars = formula.chars ++ op.chars ++ operand.chars := by
  fun_induction attach formula op operand with
  | case1 top left right op operand h ih => simp [chars, ih]
  | case2 top left right op operand h => simp [chars]
  | case3 formula op operand h => simp [chars]

theorem chars_regroup (formula : Formula) : formula.regroup.chars = formula.chars := by
  have hfold (links : List (BinaryOp × Formula)) (start : Formula) :
      (links.foldl attachLink start).chars = start.chars ++ links.flatMap linkChars := by
    induction links generalizing start with
    | nil => simp
    | cons link links ih => simp [ih, attachLink, chars_attach, linkChars]
  rw [regroup, hfold, ← chars_eq]

end Regrouping

def isBinary : Formula → Bool
  | binary _ _ _ => true
  | _ => false

-- Whether an expression stands on the left of an operator without parentheses. A sign binds tighter
-- than all binary operators; a grammar that refuses `-a ** b` refuses both ways to group it.
def standsLeft (op : BinaryOp) : Formula → Bool
  | binary top _ _ => !op.bindsInto top
  | _ => true

def standsRight (op : BinaryOp) : Formula → Bool
  | binary top _ _ => top.bindsInto op
  | _ => true

-- Whether an expression needs no parentheses, if it updates names only.
def isNatural : Formula → Bool
  | .name _ | update _ _ _ => true
  | unary _ argument => argument.isNatural && !argument.isBinary
  | binary op left right =>
    left.isNatural && right.isNatural && left.standsLeft op && right.standsRight op

section Natural

theorem attach_of_standsLeft {formula : Formula} {op : BinaryOp}
    (h : formula.standsLeft op = true) (operand : Formula) :
    formula.attach op operand = .binary op formula operand := by
  cases formula with
  | binary top left right =>
    have hop : op.bindsInto top = false := by simpa [standsLeft] using h
    simp [attach, hop]
  | _ => rfl

theorem foldl_attachLink_binary {op : BinaryOp} {links : List (BinaryOp × Formula)}
    (h : ∀ link ∈ links, link.1.bindsInto op = true) (left right : Formula) :
    links.foldl attachLink (.binary op left right) =
      .binary op left (links.foldl attachLink right) := by
  induction links generalizing right with
  | nil => rfl
  | cons link links ih =>
    rw [List.forall_mem_cons] at h
    have hattach : attachLink (.binary op left right) link =
        .binary op left (attachLink right link) := by
      simp [attachLink, attach, h.1]
    rw [List.foldl_cons, hattach, ih h.2, List.foldl_cons]

-- A natural expression that is not binary is an operand.
theorem first_eq_of_not_isBinary {formula : Formula} (h : formula.isNatural = true)
    (hbinary : formula.isBinary = false) : formula.first = formula ∧ formula.links = [] := by
  induction formula with
  | name id => exact ⟨rfl, rfl⟩
  | update op leading argument ih => exact ⟨rfl, rfl⟩
  | unary op argument ih =>
    simp only [isNatural, Bool.and_eq_true, Bool.not_eq_true'] at h
    obtain ⟨hfirst, hlinks⟩ := ih h.1 h.2
    exact ⟨by rw [first, hfirst], by rw [links, hlinks]⟩
  | binary op left right ihleft ihright => cases hbinary

-- Right of an operator all operators of a natural expression bind into it.
theorem bindsInto_of_mem_links {formula : Formula} (h : formula.isNatural = true) {op : BinaryOp}
    (hright : formula.standsRight op = true) :
    ∀ link ∈ formula.links, link.1.bindsInto op = true := by
  induction formula generalizing op with
  | name id => exact nofun
  | update op' leading argument ih => exact nofun
  | unary op' argument ih =>
    rw [(first_eq_of_not_isBinary h rfl).2]
    exact nofun
  | binary top left right ihleft ihright =>
    simp only [isNatural, Bool.and_eq_true] at h
    obtain ⟨⟨⟨hleft, hright'⟩, hstandsLeft⟩, hstandsRight⟩ := h
    have htop : top.bindsInto op = true := hright
    have hleftOp : left.standsRight op = true := by
      cases left with
      | binary inner _ _ =>
        exact BinaryOp.bindsInto_of_not_bindsInto htop (by simpa [standsLeft] using hstandsLeft)
      | _ => rfl
    have hrightOp : right.standsRight op = true := by
      cases right with
      | binary inner _ _ => exact BinaryOp.bindsInto_trans hstandsRight htop
      | _ => rfl
    rw [links, List.forall_mem_append, List.forall_mem_cons]
    exact ⟨ihleft hleft hleftOp, htop, ihright hright' hrightOp⟩

theorem regroup_of_isNatural {formula : Formula} (h : formula.isNatural = true) :
    formula.regroup = formula := by
  induction formula with
  | name id => rfl
  | update op leading argument ih => rfl
  | unary op argument ih =>
    obtain ⟨hfirst, hlinks⟩ := first_eq_of_not_isBinary h rfl
    rw [regroup, hfirst, hlinks, List.foldl_nil]
  | binary op left right ihleft ihright =>
    simp only [isNatural, Bool.and_eq_true] at h
    obtain ⟨⟨⟨hleft, hright⟩, hstandsLeft⟩, hstandsRight⟩ := h
    have hlinks := bindsInto_of_mem_links hright hstandsRight
    calc (binary op left right).regroup
        = right.links.foldl attachLink (attachLink left.regroup (op, right.first)) := by
          rw [regroup, links, first, List.foldl_append, List.foldl_cons, ← regroup]
      _ = right.links.foldl attachLink (.binary op left right.first) := by
          rw [ihleft hleft, attachLink, attach_of_standsLeft hstandsLeft]
      _ = .binary op left right.regroup := foldl_attachLink_binary hlinks left right.first
      _ = .binary op left right := by rw [ihright hright]

theorem standsRight_of_not_isBinary {formula : Formula} (h : formula.isBinary = false)
    (op : BinaryOp) : formula.standsRight op = true := by
  cases formula <;> first | rfl | cases h

theorem standsRight_attach {formula : Formula} {outer : BinaryOp}
    (h : formula.standsRight outer = true) {op : BinaryOp} (hop : op.bindsInto outer = true)
    (operand : Formula) : (formula.attach op operand).standsRight outer = true := by
  unfold attach
  split
  · split
    · exact h
    · exact hop
  · exact hop

theorem isNatural_attach {formula : Formula} (h : formula.isNatural = true) (op : BinaryOp)
    {operand : Formula} (hoperand : operand.isNatural = true)
    (hbinary : operand.isBinary = false) : (formula.attach op operand).isNatural = true := by
  have hright := standsRight_of_not_isBinary hbinary op
  fun_induction attach formula op operand with
  | case1 top left right op operand hop ih =>
    simp only [isNatural, Bool.and_eq_true] at h ⊢
    obtain ⟨⟨⟨hleft, hright'⟩, hstandsLeft⟩, hstandsRight⟩ := h
    exact ⟨⟨⟨hleft, ih hright' hoperand hbinary hright⟩, hstandsLeft⟩,
      standsRight_attach hstandsRight hop operand⟩
  | case2 top left right op operand hop =>
    rw [isNatural, h, hoperand, hright, standsLeft]
    simpa using hop
  | case3 formula op operand hformula =>
    have hleft : formula.standsLeft op = true := by
      cases formula <;> first | rfl | exact absurd rfl (hformula _ _ _)
    rw [isNatural, h, hoperand, hright, hleft]
    rfl

theorem isNatural_first (formula : Formula) :
    formula.first.isNatural = true ∧ formula.first.isBinary = false := by
  induction formula with
  | name id => exact ⟨rfl, rfl⟩
  | update op leading argument ih => exact ⟨rfl, rfl⟩
  | unary op argument ih => exact ⟨by simp [first, isNatural, ih], rfl⟩
  | binary op left right ihleft ihright => simp [first, ihleft]

theorem isNatural_snd_of_mem_links {formula : Formula} :
    ∀ link ∈ formula.links, link.2.isNatural = true ∧ link.2.isBinary = false := by
  induction formula with
  | name id => exact nofun
  | update op leading argument ih => exact nofun
  | unary op argument ih => exact ih
  | binary op left right ihleft ihright =>
    rw [links, List.forall_mem_append, List.forall_mem_cons]
    exact ⟨ihleft, isNatural_first right, ihright⟩

theorem isNatural_regroup (formula : Formula) : formula.regroup.isNatural = true := by
  have hfold (links : List (BinaryOp × Formula))
      (hlinks : ∀ link ∈ links, link.2.isNatural = true ∧ link.2.isBinary = false)
      (start : Formula) (hstart : start.isNatural = true) :
      (links.foldl attachLink start).isNatural = true := by
    induction links generalizing start with
    | nil => exact hstart
    | cons link links ih =>
      rw [List.forall_mem_cons] at hlinks
      exact ih hlinks.2 _ (isNatural_attach hstart link.1 hlinks.1.1 hlinks.1.2)
  exact hfold _ isNatural_snd_of_mem_links _ (isNatural_first formula).1

theorem regroup_eq_self_iff {formula : Formula} :
    formula.regroup = formula ↔ formula.isNatural = true := by
  constructor
  · intro h
    rw [← h]
    exact isNatural_regroup formula
  · exact regroup_of_isNatural

end Natural

-- Whether no two signs of an expression merge, and only names are updated.
def isLegible : Formula → Bool
  | .name _ => true
  | unary op argument => argument.isLegible && !op.mergesWith argument.chars
  | update _ _ (.name _) => true
  | update _ _ _ => false
  | binary _ left right => left.isLegible && right.isLegible

section Legible

theorem isOperand_first {formula : Formula} (h : formula.isLegible = true) :
    IsOperand formula.first := by
  induction formula with
  | name id => exact .name id
  | unary op argument ih =>
    simp only [isLegible, Bool.and_eq_true, Bool.not_eq_true'] at h
    have hfirst := ih h.1
    have hmerge := h.2
    rw [chars_eq, op.mergesWith_append (chars_ne_nil hfirst)] at hmerge
    exact .unary hfirst hmerge
  | update op leading argument ih =>
    cases argument with
    | name id => exact .update op leading id
    | _ => cases h
  | binary op left right ihleft ihright =>
    rw [isLegible, Bool.and_eq_true] at h
    exact ihleft h.1

theorem isOperand_of_mem_links {formula : Formula} (h : formula.isLegible = true) :
    ∀ link ∈ formula.links, IsOperand link.2 := by
  induction formula with
  | name id => exact nofun
  | unary op argument ih =>
    rw [isLegible, Bool.and_eq_true] at h
    exact ih h.1
  | update op leading argument ih => exact nofun
  | binary op left right ihleft ihright =>
    rw [isLegible, Bool.and_eq_true] at h
    rw [links, List.forall_mem_append, List.forall_mem_cons]
    exact ⟨ihleft h.1, isOperand_first h.2, ihright h.2⟩

-- Legible expressions have the same text if and only if they are grouped alike.
theorem chars_eq_iff {first second : Formula} (hfirst : first.isLegible = true)
    (hsecond : second.isLegible = true) :
    first.chars = second.chars ↔ first.regroup = second.regroup := by
  constructor
  · intro h
    rw [chars_eq first, chars_eq second] at h
    obtain ⟨hoperand, hlinks⟩ := eq_of_chars_append_eq (isOperand_first hfirst)
      (isOperand_first hsecond) (follows_flatMap_linkChars first.links)
      (follows_flatMap_linkChars second.links) h
    rw [regroup, regroup, hoperand,
      links_eq_of_chars_eq (isOperand_of_mem_links hfirst) (isOperand_of_mem_links hsecond) hlinks]
  · intro h
    rw [← chars_regroup first, h, chars_regroup]

end Legible

end Formula

-- Legible expressions have the same text if and only if they are the same once binary operators
-- take their operands by how tightly they bind. That changes nothing if and only if an expression
-- needs no parentheses.
theorem print_eq_iff_regroup_eq (options : PrintOptions) (first second : Formula)
    (hfirst : first.isLegible = true) (hsecond : second.isLegible = true) :
    ∃ text text', first.toNode.print options = .ok text ∧
      second.toNode.print options = .ok text' ∧
      (text = text' ↔ first.regroup = second.regroup) ∧
      (first.regroup = first ↔ first.isNatural = true) ∧
      (first.isNatural = true → second.isNatural = true → text = text' → first = second) := by
  have hiff : String.ofList first.chars = String.ofList second.chars ↔
      first.regroup = second.regroup := by
    rw [String.ofList_inj, Formula.chars_eq_iff hfirst hsecond]
  refine ⟨_, _, first.print_toNode options, second.print_toNode options, hiff,
    Formula.regroup_eq_self_iff, ?_⟩
  intro hnatural hnatural' h
  rw [← Formula.regroup_of_isNatural hnatural, ← Formula.regroup_of_isNatural hnatural']
  exact hiff.mp h

def Formula.a : Formula := .name ⟨"a", by decide⟩

def Formula.b : Formula := .name ⟨"b", by decide⟩

-- `a - --b ** a`
def Formula.stepBehindMinus : Formula :=
  .binary .subtract .a (.binary .power (.update .decrement true .b) .a)

-- `a-- - b ** a`
def Formula.stepBeforeMinus : Formula :=
  .binary .subtract (.update .decrement false .a) (.binary .power .b .a)

-- Two expressions whose texts differ in their blanks only.
theorem print_eq_iff_regroup_eq_decrements :
    Formula.stepBehindMinus.isLegible = true ∧ Formula.stepBeforeMinus.isLegible = true ∧
      Formula.stepBehindMinus.isNatural = true ∧ Formula.stepBeforeMinus.isNatural = true ∧
      ∃ text text', Formula.stepBehindMinus.toNode.print {} = .ok text ∧
        Formula.stepBeforeMinus.toNode.print {} = .ok text' ∧ text ≠ text' := by
  have hlegible : Formula.stepBehindMinus.isLegible = true := by decide
  have hlegible' : Formula.stepBeforeMinus.isLegible = true := by decide
  have hnatural : Formula.stepBehindMinus.isNatural = true := by decide
  have hnatural' : Formula.stepBeforeMinus.isNatural = true := by decide
  obtain ⟨text, text', hprint, hprint', -, -, hsame⟩ := print_eq_iff_regroup_eq {}
    Formula.stepBehindMinus Formula.stepBeforeMinus hlegible hlegible'
  refine ⟨hlegible, hlegible', hnatural, hnatural', text, text', hprint, hprint', fun h => ?_⟩
  have heq := hsame hnatural hnatural' h
  simp [Formula.stepBehindMinus, Formula.stepBeforeMinus, Formula.a] at heq

-- `(a + b) * a` has the text of `a + b * a`, and `-` twice that of `--`.
theorem print_product_of_sum :
    (Formula.binary .multiply (.binary .add .a .b) .a).toNode.print {} = .ok "a + b * a" ∧
      (Formula.binary .add .a (.binary .multiply .b .a)).toNode.print {} = .ok "a + b * a" ∧
      (Formula.binary .multiply (.binary .add .a .b) .a).toNode ≠
        (Formula.binary .add .a (.binary .multiply .b .a)).toNode ∧
      (Formula.unary .minus (.unary .minus .a)).toNode.print {} = .ok "--a" ∧
      (Formula.update .decrement true .a).toNode.print {} = .ok "--a" ∧
      (Formula.unary .minus (.unary .minus .a)).toNode ≠
        (Formula.update .decrement true .a).toNode := by
  have hprint (formula : Formula) {text : String} (h : formula.chars = text.toList) :
      formula.toNode.print {} = .ok text := by
    rw [formula.print_toNode, h, String.ofList_toList]
  refine ⟨hprint _ (by decide), hprint _ (by decide), ?_, hprint _ (by decide),
    hprint _ (by decide), ?_⟩
  · simp [Formula.toNode, Node.binary, BinaryOp.text]
  · simp [Formula.toNode]

end Estree
