import Estree.Proofs.Operators

namespace Estree

open Text

namespace Formula

-- What an operand starts with.
inductive Lead where
  | name (letters : List Char)
  | sign (op : UnaryOp)
  | step (op : UpdateOp)

namespace Lead

-- An operator that is a word has a blank behind it.
def readWord (chars : List Char) : Lead × List Char :=
  let letters := chars.takeWhile isWordChar
  let rest := chars.dropWhile isWordChar
  match [UnaryOp.typeof, .void, .delete].find? fun op => op.text.toList = letters with
  | some op => (.sign op, rest.tail)
  | none => (.name letters, rest)

-- The start of a text and what follows it.
def read : List Char → Lead × List Char
  | '-' :: '-' :: rest => (.step .decrement, rest)
  | '+' :: '+' :: rest => (.step .increment, rest)
  | '-' :: rest => (.sign .minus, rest)
  | '+' :: rest => (.sign .plus, rest)
  | '!' :: rest => (.sign .not, rest)
  | '~' :: rest => (.sign .complement, rest)
  | chars => readWord chars

theorem read_step (op : UpdateOp) (rest : List Char) :
    read (op.text.toList ++ rest) = (.step op, rest) := by
  cases op <;> rfl

theorem read_sign {op : UnaryOp} {rest : List Char} (h : op.mergesWith rest = false) :
    read (op.chars ++ rest) = (.sign op, rest) := by
  cases op with
  | minus =>
    have hrest : rest.head? ≠ some '-' := by simpa [UnaryOp.mergesWith] using h
    change read ('-' :: rest) = _
    unfold read
    split <;> simp_all
  | plus =>
    have hrest : rest.head? ≠ some '+' := by simpa [UnaryOp.mergesWith] using h
    change read ('+' :: rest) = _
    unfold read
    split <;> simp_all
  | _ => rfl

theorem read_of_isWordChar {c : Char} (h : isWordChar c = true) (chars : List Char) :
    read (c :: chars) = readWord (c :: chars) := by
  unfold read
  split
  case h_7 => rfl
  all_goals
    rename_i heq
    obtain ⟨rfl, -⟩ := List.cons.inj heq
    cases h

theorem takeWhile_append_eq {letters rest : List Char} (h : ∀ c ∈ letters, isWordChar c = true)
    (hrest : ∀ c ∈ rest.head?, isWordChar c = false) :
    (letters ++ rest).takeWhile isWordChar = letters ∧
      (letters ++ rest).dropWhile isWordChar = rest := by
  rw [List.takeWhile_append_of_pos h, List.dropWhile_append_of_pos h]
  cases rest with
  | nil => simp
  | cons c rest =>
    have hc : isWordChar c = false := hrest c rfl
    simp [hc]

theorem read_name (id : Identifier) {rest : List Char}
    (h : ∀ c ∈ rest.head?, isWordChar c = false) :
    read (id.text.toList ++ rest) = (.name id.text.toList, rest) := by
  have hletters := isWordChar_of_isName id.valid.1
  obtain ⟨c, letters, hchars⟩ : ∃ c letters, id.text.toList = c :: letters := by
    refine List.exists_cons_of_ne_nil fun hnil => ?_
    have hname := id.valid.1
    simp [isName, hnil] at hname
  have hfree : [UnaryOp.typeof, .void, .delete].find?
      (fun op => op.text.toList = id.text.toList) = none := by
    have hreserved : ∀ op ∈ [UnaryOp.typeof, .void, .delete], op.text ∈ reservedWords := by decide
    refine List.find?_eq_none.mpr fun op hop htext => id.valid.2 ?_
    rw [← String.toList_inj.mp (of_decide_eq_true htext)]
    exact hreserved op hop
  obtain ⟨htake, hdrop⟩ := takeWhile_append_eq hletters h
  have hread : read (id.text.toList ++ rest) = readWord (id.text.toList ++ rest) := by
    rw [hchars]
    exact read_of_isWordChar (hletters c (hchars ▸ List.mem_cons_self)) _
  rw [hread, readWord, htake, hdrop]
  simp only [hfree]

end Lead

-- Operands: names, updates of names, and operators in front of operands, where no two signs merge.
inductive IsOperand : Formula → Prop where
  | name (id : Identifier) : IsOperand (.name id)
  | update (op : UpdateOp) (leading : Bool) (id : Identifier) :
      IsOperand (.update op leading (.name id))
  | unary {op : UnaryOp} {argument : Formula} (h : IsOperand argument)
      (hmerge : op.mergesWith argument.chars = false) : IsOperand (.unary op argument)

def lead : Formula → Lead
  | .name id => .name id.text.toList
  | unary op _ => .sign op
  | update op true _ => .step op
  | update _ false argument => argument.lead
  | binary _ left _ => left.lead

def behind : Formula → List Char
  | .name _ => []
  | unary _ argument | update _ true argument => argument.chars
  | update op false argument => argument.behind ++ op.text.toList
  | binary op left right => left.behind ++ op.chars ++ right.chars

-- Whether a text can stand behind an operand: it is empty or has a blank in front.
def Follows (rest : List Char) : Prop :=
  ∀ c ∈ rest.head?, c = ' '

section Operands

theorem Follows.isWordChar {rest : List Char} (h : Follows rest) :
    ∀ c ∈ rest.head?, isWordChar c = false := by
  intro c hc
  rw [h c hc]
  decide

theorem Follows.ne_step {rest : List Char} (h : Follows rest) (op : UpdateOp)
    (rest' : List Char) : rest ≠ op.text.toList ++ rest' := by
  rintro rfl
  cases op <;> cases h _ rfl

theorem chars_ne_nil {formula : Formula} (h : IsOperand formula) : formula.chars ≠ [] := by
  cases h with
  | name id =>
    intro hnil
    have hname := id.valid.1
    simp_all [chars, isName]
  | update op leading id => cases leading <;> cases op <;> simp [chars, UpdateOp.text]
  | @unary op argument h hmerge => cases op <;> simp [chars, UnaryOp.chars, UnaryOp.text]

-- An operand is read up to what it starts with.
theorem read_chars {formula : Formula} (h : IsOperand formula) {rest : List Char}
    (hrest : Follows rest) :
    Lead.read (formula.chars ++ rest) = (formula.lead, formula.behind ++ rest) := by
  cases h with
  | name id => exact Lead.read_name id hrest.isWordChar
  | update op leading id =>
    cases leading with
    | true =>
      rw [chars, List.append_assoc]
      exact Lead.read_step op _
    | false =>
      have hstep : ∀ c ∈ (op.text.toList ++ rest).head?, isWordChar c = false := by
        cases op <;> simp [UpdateOp.text] <;> decide
      rw [chars, List.append_assoc]
      exact Lead.read_name id hstep
  | @unary op argument hargument hmerge =>
    rw [← op.mergesWith_append (chars_ne_nil hargument) rest] at hmerge
    rw [chars, List.append_assoc]
    exact Lead.read_sign hmerge

theorem lead_eq {x y : Formula} (hx : IsOperand x) (hy : IsOperand y) {rest rest' : List Char}
    (hrest : Follows rest) (hrest' : Follows rest') (h : x.chars ++ rest = y.chars ++ rest') :
    x.lead = y.lead ∧ x.behind ++ rest = y.behind ++ rest' := by
  have hread := read_chars hx hrest
  rw [h, read_chars hy hrest', Prod.mk.injEq] at hread
  exact ⟨hread.1.symm, hread.2.symm⟩

theorem name_eq {a b : Identifier} (h : (Formula.name a).lead = (Formula.name b).lead) : a = b :=
  Identifier.ext (String.toList_inj.mp (Lead.name.inj h))

-- A text starts with one operand at most.
theorem eq_of_chars_append_eq {x y : Formula} (hx : IsOperand x) (hy : IsOperand y)
    {rest rest' : List Char} (hrest : Follows rest) (hrest' : Follows rest')
    (h : x.chars ++ rest = y.chars ++ rest') : x = y ∧ rest = rest' := by
  induction hx generalizing y with
  | name id =>
    obtain ⟨hlead, hbehind⟩ := lead_eq (.name id) hy hrest hrest' h
    cases hy with
    | name id' => exact ⟨by rw [name_eq hlead], hbehind⟩
    | update op leading id' =>
      cases leading with
      | true => cases hlead
      | false => exact absurd hbehind (hrest.ne_step op rest')
    | unary _ _ => cases hlead
  | update op leading id =>
    obtain ⟨hlead, hbehind⟩ := lead_eq (.update op leading id) hy hrest hrest' h
    cases leading with
    | true =>
      cases hy with
      | name id' => cases hlead
      | update op' leading' id' =>
        cases leading' with
        | true =>
          obtain ⟨hname, hrests⟩ := lead_eq (.name id) (.name id') hrest hrest' hbehind
          exact ⟨by rw [Lead.step.inj hlead, name_eq hname], hrests⟩
        | false => cases hlead
      | unary _ _ => cases hlead
    | false =>
      cases hy with
      | name id' => exact absurd hbehind.symm (hrest'.ne_step op rest)
      | update op' leading' id' =>
        cases leading' with
        | true => cases hlead
        | false =>
          have hstep := Lead.read_step op rest
          rw [show op.text.toList ++ rest = op'.text.toList ++ rest' from hbehind,
            Lead.read_step] at hstep
          obtain ⟨hop, hrests⟩ := Prod.mk.inj hstep
          exact ⟨by rw [Lead.step.inj hop, name_eq hlead], hrests.symm⟩
      | unary _ _ => cases hlead
  | @unary op argument hargument hmerge ih =>
    obtain ⟨hlead, hbehind⟩ := lead_eq (.unary hargument hmerge) hy hrest hrest' h
    cases hy with
    | name id' => cases hlead
    | update op' leading' id' => cases leading' <;> cases hlead
    | unary hargument' _ =>
      obtain ⟨hargs, hrests⟩ := ih hargument' hbehind
      exact ⟨by rw [Lead.sign.inj hlead, hargs], hrests⟩

-- The text of a binary operator and the operand behind it.
def linkChars (link : BinaryOp × Formula) : List Char :=
  link.1.chars ++ link.2.chars

theorem follows_flatMap_linkChars (links : List (BinaryOp × Formula)) :
    Follows (links.flatMap linkChars) := by
  cases links with
  | nil => exact nofun
  | cons link links =>
    intro c hc
    exact (Option.some.inj hc).symm

theorem links_eq_of_chars_eq {links links' : List (BinaryOp × Formula)}
    (hlinks : ∀ link ∈ links, IsOperand link.2) (hlinks' : ∀ link ∈ links', IsOperand link.2)
    (h : links.flatMap linkChars = links'.flatMap linkChars) : links = links' := by
  induction links generalizing links' with
  | nil =>
    cases links' with
    | nil => rfl
    | cons link' links' => cases h
  | cons link links ih =>
    cases links' with
    | nil => cases h
    | cons link' links' =>
      rw [List.forall_mem_cons] at hlinks hlinks'
      have hsplit (link : BinaryOp × Formula) (links : List (BinaryOp × Formula)) :
          (link :: links).flatMap linkChars =
            ' ' :: (link.1.text.toList ++ ' ' :: (link.2.chars ++ links.flatMap linkChars)) := by
        simp [linkChars, BinaryOp.chars]
      rw [hsplit, hsplit] at h
      obtain ⟨htext, -, hrest⟩ := link.1.avoids_text.eq_of_append_cons_eq link'.1.avoids_text
        List.mem_cons_self List.mem_cons_self (List.cons.inj h).2
      have hop : link.1 = link'.1 := BinaryOp.text_injective (String.toList_inj.mp htext)
      obtain ⟨hoperand, hmore⟩ := eq_of_chars_append_eq hlinks.1 hlinks'.1
        (follows_flatMap_linkChars links) (follows_flatMap_linkChars links') hrest
      rw [Prod.ext hop hoperand, ih hlinks.2 hlinks'.2 hmore]

end Operands

end Formula

end Estree
