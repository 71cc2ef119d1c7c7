import Estree.Proofs.LeadingBlanks
import Estree.Text.Quoted

namespace Estree

-- The units of a program text.
inductive SourceToken where
  | word (name : String)
  -- A string literal: the characters between its quotes
  | quoted (chars : List Char)
  | mark (c : Char)
  deriving DecidableEq

namespace Text

-- The characters of words: letters, digits, `_` and `$`.
def isWordChar (c : Char) : Bool :=
  c.isAlphanum || c == '_' || c == '$'

-- White space between tokens.
def isSpace (c : Char) : Bool :=
  isBlank c || c == '\n'

-- Where a scan stands: behind some characters of a word, if any, or inside a string literal.
inductive ScanState where
  | word (front : List Char)
  | quoted (front : List Char)
  | escaped (front : List Char)

def wordToken (front : List Char) : List SourceToken :=
  if front = [] then [] else [.word (String.ofList front)]

-- The tokens from a state on.
def scan : ScanState → List Char → List SourceToken
  | .word front, [] => wordToken front
  | .word front, c :: chars =>
    if isWordChar c then scan (.word (front ++ [c])) chars
    else wordToken front ++
      if isSpace c then scan (.word []) chars
      else if c = '\x27' then scan (.quoted []) chars
      else .mark c :: scan (.word []) chars
  | .quoted front, c :: chars =>
    if c = '\x27' then .quoted front :: scan (.word []) chars
    else if c = '\\' then scan (.escaped front) chars
    else scan (.quoted (front ++ [c])) chars
  | .escaped front, c :: chars => scan (.quoted (front ++ ['\\', c])) chars
  | _, [] => []

def tokens (chars : List Char) : List SourceToken :=
  scan (.word []) chars

-- Two texts between which no word goes on.
def Apart (a b : List Char) : Prop :=
  ∀ c ∈ a.getLast?, ∀ d ∈ b.head?, isWordChar c = true → isWordChar d = false

-- A text whose tokens do not depend on what is around it: its lines may be moved, and it may be
-- followed by anything that does not carry on its last word.
def IsClosed (text : List Char) : Prop :=
  ∀ padding rest, (∀ c ∈ padding, isBlank c = true) → Apart text rest →
    tokens (hang padding text ++ rest) = tokens text ++ tokens rest

theorem isWordChar_newline : isWordChar '\n' = false := rfl

theorem isSpace_of_isBlank {c : Char} (h : isBlank c = true) : isSpace c = true := by
  simp [isSpace, h]

theorem isWordChar_of_isBlank {c : Char} (h : isBlank c = true) : isWordChar c = false := by
  rcases Bool.or_eq_true_iff.mp h with h | h
  · obtain rfl := beq_iff_eq.mp h
    rfl
  · obtain rfl := beq_iff_eq.mp h
    rfl

theorem tokens_space {c : Char} (hword : isWordChar c = false) (h : isSpace c = true)
    (chars : List Char) : tokens (c :: chars) = tokens chars := by
  simp [tokens, scan, hword, h, wordToken]

theorem tokens_blanks {padding : List Char} (h : ∀ c ∈ padding, isBlank c = true)
    (chars : List Char) : tokens (padding ++ chars) = tokens chars := by
  induction padding with
  | nil => rfl
  | cons c padding ih =>
    rw [List.forall_mem_cons] at h
    rw [List.cons_append, tokens_space (isWordChar_of_isBlank h.1) (isSpace_of_isBlank h.1),
      ih h.2]

theorem apart_nil (a : List Char) : Apart a [] := by
  simp [Apart]

-- What comes after a text that ends a word is scanned afresh.
theorem scan_word_of_apart {front rest : List Char} (hfront : ∀ c ∈ front, isWordChar c = true)
    (h : Apart front rest) : scan (.word front) rest = wordToken front ++ tokens rest := by
  cases rest with
  | nil => simp [tokens, scan, wordToken]
  | cons d rest =>
    cases hword : isWordChar d with
    | false => simp [tokens, scan, hword, wordToken]
    | true =>
      rcases List.eq_nil_or_concat front with rfl | ⟨init, c, rfl⟩
      · rfl
      · have hfalse := h c (by simp) d (by simp) (hfront c (by simp))
        rw [hword] at hfalse
        cases hfalse

theorem scan_word_of_forall {chars : List Char} (h : ∀ c ∈ chars, isWordChar c = true)
    (front : List Char) : scan (.word front) chars = wordToken (front ++ chars) := by
  induction chars generalizing front with
  | nil => simp [scan]
  | cons c chars ih =>
    rw [List.forall_mem_cons] at h
    rw [scan, if_pos h.1, ih h.2, List.append_assoc]
    rfl

theorem tokens_word {chars : List Char} (hne : chars ≠ [])
    (h : ∀ c ∈ chars, isWordChar c = true) : tokens chars = [.word (String.ofList chars)] := by
  rw [tokens, scan_word_of_forall h, List.nil_append, wordToken, if_neg hne]

theorem Apart.of_cons_right {front : List Char} {c : Char} {a b : List Char}
    (h : Apart (front ++ c :: a) b) : Apart a b := by
  intro d hd
  apply h d
  rw [List.getLast?_append, List.getLast?_cons]
  cases a with
  | nil => simp at hd
  | cons e a => simpa [List.getLast?_cons] using hd

-- Only a quote has a say in how the characters after it are taken.
theorem scan_word_of_unquoted {text padding rest : List Char} (h : ∀ c ∈ text, c ≠ '\x27')
    (hpadding : ∀ c ∈ padding, isBlank c = true) {front : List Char}
    (hfront : ∀ c ∈ front, isWordChar c = true) (hapart : Apart (front ++ text) rest) :
    scan (.word front) (hang padding text ++ rest) = scan (.word front) text ++ tokens rest := by
  induction text generalizing front with
  | nil =>
    rw [List.append_nil] at hapart
    simpa [scan] using scan_word_of_apart hfront hapart
  | cons c text ih =>
    rw [List.forall_mem_cons] at h
    have hafresh : scan (.word []) (hang padding text ++ rest) =
        scan (.word []) text ++ tokens rest := ih h.2 (by simp) hapart.of_cons_right
    cases hword : isWordChar c with
    | true =>
      have hne : c ≠ '\n' := by
        rintro rfl
        cases hword
      rw [hang_cons_of_ne hne, List.cons_append, scan, if_pos hword, scan, if_pos hword]
      apply ih h.2
      · intro d hd
        rcases List.mem_append.mp hd with hd | hd
        · exact hfront d hd
        · rwa [List.mem_singleton.mp hd]
      · simpa using hapart
    | false =>
      by_cases hnewline : c = '\n'
      · subst hnewline
        have hskip := tokens_blanks hpadding (hang padding text ++ rest)
        rw [tokens, tokens, hafresh] at hskip
        simp [scan, hword, isSpace, hskip]
      · rw [hang_cons_of_ne hnewline, List.cons_append]
        cases hspace : isSpace c with
        | true => simp [scan, hword, hspace, hafresh]
        | false => simp [scan, hword, hspace, h.1, hafresh]

theorem isClosed_of_unquoted {text : List Char} (h : ∀ c ∈ text, c ≠ '\x27') : IsClosed text :=
  fun _ _ hpadding hapart => scan_word_of_unquoted h hpadding (by simp) hapart

theorem tokens_append {a b : List Char} (ha : IsClosed a) (h : Apart a b) :
    tokens (a ++ b) = tokens a ++ tokens b := by
  simpa [hang_nil_padding] using ha [] b (by simp) h

theorem head?_hang (padding chars : List Char) : (hang padding chars).head? = chars.head? := by
  cases chars with
  | nil => rfl
  | cons c chars =>
    by_cases h : c = '\n'
    · subst h
      rfl
    · rw [hang_cons_of_ne h]
      rfl

theorem isClosed_nil : IsClosed [] := by
  intro padding rest _ _
  rfl

theorem IsClosed.append {a b : List Char} (ha : IsClosed a) (hb : IsClosed b) (h : Apart a b) :
    IsClosed (a ++ b) := by
  intro padding rest hpadding hapart
  cases b with
  | nil => simpa using ha padding rest hpadding (by simpa using hapart)
  | cons d b =>
    have hfirst : Apart a (hang padding (d :: b) ++ rest) := by
      intro c hc e he
      apply h c hc
      rw [List.head?_append, head?_hang] at he
      simpa using he
    have hsecond : Apart (d :: b) rest := by
      intro c hc
      apply hapart c
      rw [List.getLast?_append]
      simp_all
    rw [hang_append, List.append_assoc, ha padding _ hpadding hfirst,
      hb padding rest hpadding hsecond, tokens_append ha h, List.append_assoc]

theorem not_mem_escapeQuoted (c : Char) : '\n' ∉ escapeQuoted c := by
  unfold escapeQuoted
  repeat' split
  all_goals simp_all [eq_comm]

-- Whether a text holds none of some characters.
def Avoids (marks chars : List Char) : Prop :=
  ∀ c ∈ chars, c ∉ marks

instance (marks chars : List Char) : Decidable (Avoids marks chars) :=
  List.decidableBAll (fun c => c ∉ marks) chars

-- A text has one first mark, and one text before and behind it.
theorem Avoids.eq_of_append_cons_eq {marks a b : List Char} (ha : Avoids marks a)
    (hb : Avoids marks b) {c d : Char} (hc : c ∈ marks) (hd : d ∈ marks) {rest rest' : List Char}
    (h : a ++ c :: rest = b ++ d :: rest') : a = b ∧ c = d ∧ rest = rest' := by
  induction a generalizing b with
  | nil =>
    cases b with
    | nil => simpa using h
    | cons e b =>
      obtain ⟨rfl, -⟩ := List.cons.inj h
      exact absurd hc (hb c List.mem_cons_self)
  | cons e a ih =>
    rw [Avoids, List.forall_mem_cons] at ha
    cases b with
    | nil =>
      obtain ⟨rfl, -⟩ := List.cons.inj h
      exact absurd hd ha.1
    | cons f b =>
      rw [Avoids, List.forall_mem_cons] at hb
      obtain ⟨rfl, htail⟩ := List.cons.inj h
      obtain ⟨rfl, hrest⟩ := ih ha.2 hb.2 htail
      exact ⟨rfl, hrest⟩

theorem newline_not_mem_quote (text : String) : '\n' ∉ (quote text).toList := by
  simp only [quote, String.toList_ofList, List.mem_cons, List.mem_append, List.mem_flatMap,
    not_or, not_exists, not_and]
  exact ⟨by decide, fun c _ => not_mem_escapeQuoted c, by decide, by simp⟩

-- A string literal ends where it is meant to.
theorem scan_quoted (front chars rest : List Char) :
    scan (.quoted front) (chars.flatMap escapeQuoted ++ '\x27' :: rest) =
      .quoted (front ++ chars.flatMap escapeQuoted) :: tokens rest := by
  induction chars generalizing front with
  | nil => simp [scan, tokens]
  | cons c chars ih =>
    rw [List.flatMap_cons, List.append_assoc, ← List.append_assoc front, ← ih]
    unfold escapeQuoted
    repeat' split
    all_goals simp_all [scan]

theorem tokens_quote (text : String) (rest : List Char) :
    tokens ((quote text).toList ++ rest) =
      .quoted (text.toList.flatMap escapeQuoted) :: tokens rest := by
  have hopen : tokens ('\x27' :: (text.toList.flatMap escapeQuoted ++ '\x27' :: rest)) =
      scan (.quoted []) (text.toList.flatMap escapeQuoted ++ '\x27' :: rest) := rfl
  rw [quote, String.toList_ofList]
  simpa [scan_quoted] using hopen

theorem isClosed_quote (text : String) : IsClosed (quote text).toList := by
  intro padding rest _ _
  have htokens := tokens_quote text []
  rw [List.append_nil] at htokens
  rw [hang_of_not_mem (newline_not_mem_quote text), tokens_quote, htokens]
  rfl

-- The characters that those between two quotes stand for.
def unescape : List Char → List Char
  | '\\' :: 'n' :: chars => '\n' :: unescape chars
  | '\\' :: 'r' :: chars => '\r' :: unescape chars
  | '\\' :: 'u' :: '2' :: '0' :: '2' :: '8' :: chars => '\u2028' :: unescape chars
  | '\\' :: 'u' :: '2' :: '0' :: '2' :: '9' :: chars => '\u2029' :: unescape chars
  | '\\' :: c :: chars => c :: unescape chars
  | c :: chars => c :: unescape chars
  | [] => []

theorem unescape_escapeQuoted_append (c : Char) (chars : List Char) :
    unescape (escapeQuoted c ++ chars) = c :: unescape chars := by
  unfold escapeQuoted
  repeat' split
  all_goals simp_all [unescape]

theorem unescape_flatMap_escapeQuoted (chars : List Char) :
    unescape (chars.flatMap escapeQuoted) = chars := by
  induction chars with
  | nil => rfl
  | cons c chars ih => rw [List.flatMap_cons, unescape_escapeQuoted_append, ih]

theorem getLast?_hang {c : Char} {text : List Char} (hc : c ∈ text.getLast?) (hne : c ≠ '\n')
    (padding : List Char) : c ∈ (hang padding text).getLast? := by
  rcases List.eq_nil_or_concat text with rfl | ⟨init, d, rfl⟩
  · simp at hc
  · obtain rfl : d = c := by simpa using hc
    rw [List.concat_eq_append, hang_append, hang_cons_of_ne hne]
    simp

-- Moving all lines of a text leaves its tokens as they are.
theorem IsClosed.indent {text unit : List Char} (h : IsClosed text)
    (hunit : ∀ c ∈ unit, isBlank c = true) :
    IsClosed ('\n' :: (unit ++ hang unit text)) ∧
      tokens ('\n' :: (unit ++ hang unit text)) = tokens text := by
  have hline : '\n' ∉ unit := by
    intro hmem
    cases hunit _ hmem
  have htokens : tokens ('\n' :: (unit ++ hang unit text)) = tokens text := by
    rw [tokens_space isWordChar_newline rfl, tokens_blanks hunit]
    simpa [tokens, scan, wordToken] using h unit [] hunit (apart_nil text)
  refine ⟨?_, htokens⟩
  intro padding rest hpadding hapart
  have hboth : ∀ c ∈ padding ++ unit, isBlank c = true := by
    intro c hc
    rcases List.mem_append.mp hc with hc | hc
    · exact hpadding c hc
    · exact hunit c hc
  have htext : Apart text rest := by
    intro c hc d hd hword
    have hne : c ≠ '\n' := by
      rintro rfl
      cases hword
    refine hapart c ?_ d hd hword
    have hlast := getLast?_hang hc hne unit
    simp_all [List.getLast?_cons, List.getLast?_append]
  calc tokens (hang padding ('\n' :: (unit ++ hang unit text)) ++ rest)
    _ = tokens ('\n' :: (padding ++ (unit ++ (hang (padding ++ unit) text ++ rest)))) := by
      rw [hang_newline, hang_append, hang_hang hline, hang_of_not_mem hline]
      simp
    _ = tokens (hang (padding ++ unit) text ++ rest) := by
      rw [tokens_space isWordChar_newline rfl, tokens_blanks hpadding, tokens_blanks hunit]
    _ = tokens ('\n' :: (unit ++ hang unit text)) ++ tokens rest := by
      rw [h (padding ++ unit) rest hboth htext, htokens]

end Text

end Estree
