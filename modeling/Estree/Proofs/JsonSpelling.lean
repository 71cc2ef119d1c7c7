import Estree.Proofs.Lexemes
import Mathlib

namespace Estree.Json

def hexDigits : List Char :=
  ['0', '1', '2', '3', '4', '5', '6', '7', '8', '9', 'a', 'b', 'c', 'd', 'e', 'f']

-- Whether a character is the hexadecimal digit of a value. Letters may be small or capital.
def IsHexDigit (value : Nat) (c : Char) : Prop :=
  hexDigits[value]? = some c ∨ (hexDigits.map Char.toUpper)[value]? = some c

-- A code unit in four hexadecimal digits.
inductive WritesUnit : Nat → List Char → Prop where
  | digits {a b c d : Nat} {ca cb cc cd : Char} (ha : IsHexDigit a ca) (hb : IsHexDigit b cb)
      (hc : IsHexDigit c cc) (hd : IsHexDigit d cd) :
      WritesUnit (((a * 16 + b) * 16 + c) * 16 + d) [ca, cb, cc, cd]

-- The letters that stand for a character after a backslash.
def escapeLetters : List (Char × Char) :=
  [('"', '"'), ('\\', '\\'), ('/', '/'), ('b', '\x08'), ('f', '\x0c'), ('n', '\n'), ('r', '\r'),
    ('t', '\t')]

-- The ways to write a character in a string: as it is, by a letter, by its code unit, or by the
-- pair of code units of a character beyond the first 65536.
inductive WritesChar (c : Char) : List Char → Prop where
  | raw (hquote : c ≠ '"') (hescape : c ≠ '\\') (hcontrol : 0x20 ≤ c.toNat) : WritesChar c [c]
  | letter {letter : Char} (h : (letter, c) ∈ escapeLetters) : WritesChar c ['\\', letter]
  | unit {digits : List Char} (h : WritesUnit c.toNat digits) :
      WritesChar c ('\\' :: 'u' :: digits)
  | pair {leading trailing : List Char} (hc : 0x10000 ≤ c.toNat)
      (hleading : WritesUnit (0xD800 + (c.toNat - 0x10000) / 0x400) leading)
      (htrailing : WritesUnit (0xDC00 + (c.toNat - 0x10000) % 0x400) trailing) :
      WritesChar c ('\\' :: 'u' :: (leading ++ '\\' :: 'u' :: trailing))

-- A string in quotes, character by character.
inductive WritesString (value : String) : List Char → Prop where
  | quoted {texts : List (List Char)} (h : List.Forall₂ WritesChar value.toList texts) :
      WritesString value ('"' :: (texts.flatten ++ ['"']))

-- A string without quotes, backslashes and control characters may be written as it is.
theorem WritesString.raw {value : String}
    (h : ∀ c ∈ value.toList, c ≠ '"' ∧ c ≠ '\\' ∧ 0x20 ≤ c.toNat) :
    WritesString value ('"' :: (value.toList ++ ['"'])) := by
  have hchars : List.Forall₂ WritesChar value.toList (value.toList.map ([·])) := by
    refine List.forall₂_map_right_iff.mpr (List.forall₂_same.mpr fun c hc => ?_)
    obtain ⟨hquote, hescape, hcontrol⟩ := h c hc
    exact .raw hquote hescape hcontrol
  have hflat : (value.toList.map ([·])).flatten = value.toList := by
    rw [← List.flatMap_def, List.flatMap_singleton']
  rw [← hflat]
  exact .quoted hchars

-- The words that are written in one way only.
def fixedTokens : List (Token × List Char) :=
  [(.openArray, ['[']), (.closeArray, [']']), (.openObject, ['\x7b']), (.closeObject, ['\x7d']),
    (.comma, [',']), (.colon, [':']), (.null, ['n', 'u', 'l', 'l']),
    (.bool true, ['t', 'r', 'u', 'e']), (.bool false, ['f', 'a', 'l', 's', 'e'])]

-- The ways to write a word. Of the numbers, these are the integers of 64 bits, with or without a
-- sign.
inductive WritesToken : Token → List Char → Prop where
  | fixed {token : Token} {text : List Char} (h : (token, text) ∈ fixedTokens) :
      WritesToken token text
  | integer {n : Int} (hmin : -2 ^ 63 ≤ n) (hmax : n < 2 ^ 64) :
      WritesToken (.number (.int n)) (toString n).toList
  | string {value : String} {text : List Char} (h : WritesString value text) :
      WritesToken (.string value) text

def whitespace : List Char :=
  [' ', '\n', '\t', '\r']

-- A text that consists of words, with any whitespace around them.
inductive WritesTokens : List Token → List Char → Prop where
  | nil {blanks : List Char} (hblanks : blanks ⊆ whitespace) : WritesTokens [] blanks
  | cons {token : Token} {tokens : List Token} {blanks text rest : List Char}
      (hblanks : blanks ⊆ whitespace) (htoken : WritesToken token text)
      (hrest : WritesTokens tokens rest) :
      WritesTokens (token :: tokens) (blanks ++ (text ++ rest))

namespace Token

def isNumber : Token → Bool
  | .number _ => true
  | _ => false

-- Words of which no two that stand side by side are numbers.
def Separated (tokens : List Token) : Prop :=
  tokens.IsChain fun first second => first.isNumber = true → second.isNumber = false

end Token

namespace Numeral

-- Whether a number that stands before a text ends there.
def EndsBefore (rest : List Char) : Prop :=
  ∀ c ∈ rest.head?, c.isDigit = false ∧ c ≠ '.' ∧ c ≠ 'e' ∧ c ≠ 'E'

-- No digit follows.
def StopsBefore (rest : List Char) : Prop :=
  ∀ c ∈ rest.head?, c.isDigit = false

theorem StopsBefore.takeWhile {rest : List Char} (h : StopsBefore rest) :
    rest.takeWhile Char.isDigit = [] ∧ rest.dropWhile Char.isDigit = rest := by
  cases rest with
  | nil => exact ⟨rfl, rfl⟩
  | cons c rest => simp [h c rfl]

theorem StopsBefore.absorb {rest : List Char} (h : StopsBefore rest) (significand : Nat) :
    absorb significand rest = (significand, rest) := by
  cases rest with
  | nil => rfl
  | cons c rest => simp [Numeral.absorb, h c rfl]

theorem EndsBefore.stopsBefore {rest : List Char} (h : EndsBefore rest) : StopsBefore rest :=
  fun c hc => (h c hc).1

-- Digits that fit are absorbed, whatever comes next.
theorem absorb_digits_append {digits : List Char} (hdigits : ∀ c ∈ digits, c.isDigit = true)
    {significand : Nat} (hfit : Nat.ofDigitChars 10 digits significand < Nat.pow 2 64)
    (rest : List Char) :
    absorb significand (digits ++ rest) = absorb (Nat.ofDigitChars 10 digits significand) rest := by
  induction digits generalizing significand with
  | nil => rfl
  | cons c digits ih =>
    have hc := hdigits c List.mem_cons_self
    have hstep : significand * 10 + digit c = 10 * significand + (c.toNat - '0'.toNat) := by
      rw [digit, Nat.mul_comm]
    rw [Nat.ofDigitChars_cons, ← hstep] at hfit
    rw [Nat.ofDigitChars_cons, ← hstep]
    have hprefix : significand * 10 + digit c ≤
        Nat.ofDigitChars 10 digits (significand * 10 + digit c) := by
      rw [Nat.ofDigitChars_eq_ofDigitChars_zero]
      exact Nat.le_add_right_of_le (Nat.le_mul_of_pos_left _ (by positivity))
    rw [List.cons_append, absorb, if_pos (by simp [hc, Nat.lt_of_le_of_lt hprefix hfit])]
    exact ih (fun d hd => hdigits d (List.mem_cons_of_mem c hd)) hfit

theorem head?_toDigits_ne_zero {n : Nat} (h : 0 < n) : (Nat.toDigits 10 n).head? ≠ some '0' := by
  induction n using Nat.strongRecOn with
  | ind n ih =>
    rw [Nat.toDigits_eq_if (by decide)]
    split
    · rename_i hlt
      intro hzero
      have hcode := congrArg Char.toNat (Option.some.inj hzero)
      rw [Nat.toNat_digitChar_of_lt_ten hlt] at hcode
      change 48 + n = 48 at hcode
      omega
    · rw [List.head?_append_of_ne_nil _ Nat.toDigits_ne_nil]
      exact ih (n / 10) (by omega) (by omega)

theorem isDigit_toDigits (n : Nat) : ∀ c ∈ Nat.toDigits 10 n, c.isDigit = true :=
  fun _ hc => Nat.isDigit_of_mem_toDigits (by decide) (by decide) hc

theorem digit_lt {c : Char} (hc : c.isDigit = true) : digit c < 10 := by
  rw [Char.isDigit, Bool.and_eq_true, decide_eq_true_iff, decide_eq_true_iff] at hc
  have hle : c.toNat ≤ 57 := UInt32.le_iff_toNat_le.mp hc.2
  change c.toNat - 48 < 10
  omega

-- The digits before the point, if they do not begin with a zero.
theorem integerPart_cons {c : Char} {cs : List Char} (hc : c.isDigit = true) (hzero : c ≠ '0') :
    integerPart (c :: cs) =
      .ok ((absorb 0 (c :: cs)).1, ((absorb 0 (c :: cs)).2.takeWhile Char.isDigit).length,
        (absorb 0 (c :: cs)).2.dropWhile Char.isDigit) := by
  have hfit : 0 * 10 + digit c < Nat.pow 2 64 := by
    have := digit_lt hc
    change 0 * 10 + digit c < 2 ^ 64
    omega
  have habsorb : absorb 0 (c :: cs) = absorb (digit c) cs := by
    rw [absorb, hc, Bool.true_and, if_pos (decide_eq_true hfit), Nat.zero_mul, Nat.zero_add]
  rw [habsorb, integerPart, if_pos hc]
  rintro rfl
  exact hzero rfl

theorem integerPart_of_fits {whole tail : List Char} (hne : whole ≠ [])
    (hdigits : ∀ c ∈ whole, c.isDigit = true) (hhead : whole.head? ≠ some '0' ∨ whole = ['0'])
    (hfit : Nat.ofDigitChars 10 whole 0 < Nat.pow 2 64) (htail : StopsBefore tail) :
    integerPart (whole ++ tail) = .ok (Nat.ofDigitChars 10 whole 0, 0, tail) := by
  obtain ⟨htake, hdrop⟩ := htail.takeWhile
  rcases hhead with hhead | rfl
  · have habsorb : absorb 0 (whole ++ tail) = (Nat.ofDigitChars 10 whole 0, tail) := by
      rw [absorb_digits_append hdigits hfit, htail.absorb]
    obtain ⟨c, cs, rfl⟩ := List.exists_cons_of_ne_nil hne
    have hzero : c ≠ '0' := by
      rintro rfl
      exact hhead rfl
    rw [List.cons_append] at habsorb ⊢
    rw [integerPart_cons (hdigits c List.mem_cons_self) hzero, habsorb, htake, hdrop,
      List.length_nil]
  · have hhead : tail.head?.any Char.isDigit = false := by
      cases tail with
      | nil => rfl
      | cons c tail => exact htail c rfl
    rw [List.singleton_append, integerPart, hhead]
    rfl

theorem integerPart_toDigits {n : Nat} {rest : List Char} (hn : n < Nat.pow 2 64)
    (hrest : EndsBefore rest) : integerPart (Nat.toDigits 10 n ++ rest) = .ok (n, 0, rest) := by
  have hvalue : Nat.ofDigitChars 10 (Nat.toDigits 10 n) 0 = n := Nat.ofDigitChars_ten_toDigits
  have hhead : (Nat.toDigits 10 n).head? ≠ some '0' ∨ Nat.toDigits 10 n = ['0'] := by
    rcases Nat.eq_zero_or_pos n with rfl | hpos
    · exact .inr (Nat.toDigits_zero 10)
    · exact .inl (head?_toDigits_ne_zero hpos)
  rw [integerPart_of_fits Nat.toDigits_ne_nil (isDigit_toDigits n) hhead (by rwa [hvalue])
    hrest.stopsBefore, hvalue]

theorem fractionPart_of_endsBefore {rest : List Char} (hrest : EndsBefore rest)
    (significand : Nat) : fractionPart significand rest = .ok (significand, none, rest) := by
  unfold fractionPart
  split
  · exact absurd rfl (hrest '.' rfl).2.1
  · exact absurd rfl (hrest '.' rfl).2.1
  · rfl

theorem exponentPart_of_endsBefore {rest : List Char} (hrest : EndsBefore rest) :
    exponentPart rest = .ok (none, rest) := by
  unfold exponentPart
  split
  · exact absurd rfl (hrest 'e' rfl).2.2.1
  · exact absurd rfl (hrest 'E' rfl).2.2.2
  · rfl

theorem toList_toString (n : Int) :
    (toString n).toList =
      if n < 0 then '-' :: Nat.toDigits 10 n.natAbs else Nat.toDigits 10 n.natAbs := by
  have htext : toString n = n.repr := rfl
  rw [htext, Int.repr_eq_if]
  split
  · rename_i hpos
    have habs : n.toNat = n.natAbs := by omega
    rw [if_neg (by omega), habs, Nat.repr_eq_ofList_toDigits, String.toList_ofList]
  · rename_i hneg
    have habs : (-n).toNat = n.natAbs := by omega
    have hminus : "-".toList = ['-'] := rfl
    rw [if_pos (by omega), habs, Nat.repr_eq_ofList_toDigits, String.toList_append, hminus,
      String.toList_ofList, List.singleton_append]

-- The sign before a text that begins with a digit.
theorem minus_append {text : List Char} (hne : text ≠ [])
    (hdigit : ∀ c ∈ text.head?, c.isDigit = true) (negative : Bool) :
    minus ((if negative then ['-'] else []) ++ text) = (negative, text) := by
  obtain ⟨c, cs, rfl⟩ := List.exists_cons_of_ne_nil hne
  have hc := hdigit c rfl
  cases negative
  · change minus (c :: cs) = _
    unfold minus
    split
    · rename_i heq
      cases heq
      exact absurd hc (by decide)
    · rfl
  · rfl

theorem minus_toString (n : Int) (rest : List Char) :
    minus ((toString n).toList ++ rest) = (decide (n < 0), Nat.toDigits 10 n.natAbs ++ rest) := by
  have hne : Nat.toDigits 10 n.natAbs ≠ [] := Nat.toDigits_ne_nil
  have htext : (toString n).toList =
      (if decide (n < 0) = true then ['-'] else []) ++ Nat.toDigits 10 n.natAbs := by
    rw [toList_toString]
    split <;> simp [*]
  rw [htext, List.append_assoc]
  refine minus_append (by simp [hne]) ?_ _
  intro c hc
  rw [List.head?_append_of_ne_nil _ hne] at hc
  exact isDigit_toDigits n.natAbs c (List.mem_of_mem_head? hc)

theorem read_toString {n : Int} {rest : List Char} (hn : n.natAbs < Nat.pow 2 64)
    (hrest : EndsBefore rest) :
    read ((toString n).toList ++ rest) = .ok (⟨decide (n < 0), n.natAbs, 0, true⟩, rest) := by
  rw [read, minus_toString]
  simp only [integerPart_toDigits hn hrest, fractionPart_of_endsBefore hrest,
    exponentPart_of_endsBefore hrest, ok_bind]
  rfl

theorem value_integer {n : Int} (hmin : -2 ^ 63 ≤ n) :
    value ⟨decide (n < 0), n.natAbs, 0, true⟩ = .ok (.int n) := by
  have hlimit : Nat.pow 2 63 = 2 ^ 63 := rfl
  by_cases hneg : n < 0
  · have hfits : 0 < n.natAbs ∧ n.natAbs ≤ 2 ^ 63 := by omega
    have habs : -(n.natAbs : Int) = n := by omega
    simp only [value, decide_eq_true hneg, hlimit, decide_eq_true hfits.1, decide_eq_true hfits.2,
      habs]
    rfl
  · have habs : (n.natAbs : Int) = n := by omega
    simp only [value, decide_eq_false hneg, habs]
    rfl

-- The text of an integer begins with its sign or with a digit.
theorem exists_head_toString (n : Int) :
    ∃ c cs, (toString n).toList = c :: cs ∧ (c = '-' ∨ c.isDigit = true) := by
  rw [toList_toString]
  split
  · exact ⟨'-', _, rfl, .inl rfl⟩
  · have hdigits := isDigit_toDigits n.natAbs
    cases hn : Nat.toDigits 10 n.natAbs with
    | nil => exact absurd hn Nat.toDigits_ne_nil
    | cons c cs =>
      rw [hn] at hdigits
      exact ⟨c, cs, rfl, .inr (hdigits c List.mem_cons_self)⟩

end Numeral

namespace Lexer

theorem hexDigit?_of_isHexDigit {value : Nat} {c : Char} (h : IsHexDigit value c) :
    hexDigit? c = some value := by
  have hread {digits : List Char} (hall : digits.map hexDigit? = (List.range 16).map some)
      (hc : digits[value]? = some c) : hexDigit? c = some value := by
    have hvalue := congrArg (fun values => values[value]?) hall
    simp only [List.getElem?_map, hc, Option.map_some] at hvalue
    obtain ⟨found, hfound, hsame⟩ := Option.map_eq_some_iff.mp hvalue.symm
    obtain ⟨hlt, hindex⟩ := List.getElem?_eq_some_iff.mp hfound
    rw [List.getElem_range] at hindex
    rw [← hsame, hindex]
  rcases h with h | h
  · exact hread (by decide) h
  · exact hread (by decide) h

theorem hasBytes_four (a b c d : Char) (rest : List Char) :
    hasBytes 4 (a :: b :: c :: d :: rest) = true := by
  have := a.utf8Size_pos
  have := b.utf8Size_pos
  have := c.utf8Size_pos
  have := d.utf8Size_pos
  simp [hasBytes]
  omega

theorem codeUnit_of_writes {unit : Nat} {digits : List Char} (h : WritesUnit unit digits)
    (rest : List Char) : codeUnit (digits ++ rest) = .ok (unit, rest) := by
  obtain ⟨ha, hb, hc, hd⟩ := h
  simp only [List.cons_append, List.nil_append, codeUnit, hasBytes_four,
    hexDigit?_of_isHexDigit ha, hexDigit?_of_isHexDigit hb, hexDigit?_of_isHexDigit hc,
    hexDigit?_of_isHexDigit hd]
  rfl

-- The code of a character is no half of a pair.
theorem not_isSurrogate (c : Char) : isLeading c.toNat = false ∧ isTrailing c.toNat = false := by
  have hvalid : c.toNat.isValidChar := c.valid
  simp only [Nat.isValidChar] at hvalid
  simp only [isLeading, isTrailing, Bool.and_eq_false_iff, decide_eq_false_iff_not]
  omega

theorem escaped_letter {letter c : Char} (h : (letter, c) ∈ escapeLetters) (rest : List Char) :
    escaped (letter :: rest) = .ok (c, rest) := by
  simp only [escapeLetters, List.mem_cons, Prod.mk.injEq, List.not_mem_nil, or_false] at h
  rcases h with ⟨rfl, rfl⟩ | ⟨rfl, rfl⟩ | ⟨rfl, rfl⟩ | ⟨rfl, rfl⟩ | ⟨rfl, rfl⟩ | ⟨rfl, rfl⟩ |
    ⟨rfl, rfl⟩ | ⟨rfl, rfl⟩ <;> rfl

theorem escaped_unit {c : Char} {digits : List Char} (h : WritesUnit c.toNat digits)
    (rest : List Char) : escaped ('u' :: digits ++ rest) = .ok (c, rest) := by
  change escapedUnit (digits ++ rest) = _
  rw [escapedUnit, codeUnit_of_writes h]
  simp only [ok_bind, (not_isSurrogate c).1, (not_isSurrogate c).2, Char.ofNat_toNat]
  rfl

theorem escaped_units {first second : Nat} {leading trailing : List Char}
    (hleading : WritesUnit first leading) (htrailing : WritesUnit second trailing)
    (hfirst : isLeading first = true) (hsecond : isTrailing second = true) (rest : List Char) :
    escaped ('u' :: (leading ++ '\\' :: 'u' :: trailing) ++ rest) =
      .ok (Char.ofNat (0x10000 + (first - 0xD800) * 0x400 + (second - 0xDC00)), rest) := by
  have hnot : isTrailing first = false := by
    simp only [isLeading, Bool.and_eq_true, decide_eq_true_eq] at hfirst
    simp only [isTrailing, Bool.and_eq_false_iff, decide_eq_false_iff_not]
    omega
  change escapedUnit (leading ++ '\\' :: 'u' :: trailing ++ rest) = _
  rw [List.append_assoc, escapedUnit, codeUnit_of_writes hleading]
  simp only [ok_bind, hfirst, hnot, List.cons_append, trailingUnit, codeUnit_of_writes htrailing,
    hsecond]
  rfl

-- The two halves of a character are put together again.
theorem escaped_pair {c : Char} {leading trailing : List Char} (hc : 0x10000 ≤ c.toNat)
    (hleading : WritesUnit (0xD800 + (c.toNat - 0x10000) / 0x400) leading)
    (htrailing : WritesUnit (0xDC00 + (c.toNat - 0x10000) % 0x400) trailing) (rest : List Char) :
    escaped ('u' :: (leading ++ '\\' :: 'u' :: trailing) ++ rest) = .ok (c, rest) := by
  have hlt : c.toNat < 0x110000 := by
    have hvalid : c.toNat.isValidChar := c.valid
    simp only [Nat.isValidChar] at hvalid
    omega
  have hfirst : isLeading (0xD800 + (c.toNat - 0x10000) / 0x400) = true := by
    simp only [isLeading, Bool.and_eq_true, decide_eq_true_eq]
    omega
  have hsecond : isTrailing (0xDC00 + (c.toNat - 0x10000) % 0x400) = true := by
    simp only [isTrailing, Bool.and_eq_true, decide_eq_true_eq]
    omega
  have hjoin : 0x10000 + (0xD800 + (c.toNat - 0x10000) / 0x400 - 0xD800) * 0x400 +
      (0xDC00 + (c.toNat - 0x10000) % 0x400 - 0xDC00) = c.toNat := by
    omega
  rw [escaped_units hleading htrailing hfirst hsecond, hjoin, Char.ofNat_toNat]

-- Reading goes on behind a character, however it is written.
theorem stringBody_of_writesChar {c : Char} {text : List Char} (h : WritesChar c text)
    (read rest : List Char) : stringBody read (text ++ rest) = stringBody (c :: read) rest := by
  have hescaped {cs : List Char} (hcs : escaped cs = .ok (c, rest)) :
      stringBody read ('\\' :: cs) = stringBody (c :: read) rest := by
    rw [stringBody, if_neg (by decide), if_pos rfl]
    split
    · rename_i found hfound
      cases hcs.symm.trans hfound
      rfl
    · rename_i fault hfault
      cases hcs.symm.trans hfault
  cases h with
  | raw hquote hescape hcontrol =>
    rw [List.singleton_append, stringBody, if_neg hquote, if_neg hescape, if_neg (by omega)]
  | letter h => exact hescaped (escaped_letter h rest)
  | unit h => exact hescaped (escaped_unit h rest)
  | pair hc hleading htrailing => exact hescaped (escaped_pair hc hleading htrailing rest)

theorem stringBody_of_writesChars {chars : List Char} {texts : List (List Char)}
    (h : List.Forall₂ WritesChar chars texts) (read rest : List Char) :
    stringBody read (texts.flatten ++ '"' :: rest) =
      .ok (String.ofList (read.reverse ++ chars), rest) := by
  induction h generalizing read with
  | nil =>
    rw [List.flatten_nil, List.nil_append, List.append_nil, stringBody, if_pos rfl]
  | @cons c text chars texts hc _ ih =>
    rw [List.flatten_cons, List.append_assoc, stringBody_of_writesChar hc, ih, List.reverse_cons,
      List.append_assoc, List.singleton_append]

theorem lexeme_of_writesString {value : String} {text : List Char} (h : WritesString value text)
    (rest : List Char) :
    ∃ cs, text ++ rest = '"' :: cs ∧ lexeme '"' cs = (.string value, rest) := by
  obtain @⟨texts, hchars⟩ := h
  have hbody := stringBody_of_writesChars hchars [] rest
  rw [List.reverse_nil, List.nil_append, String.ofList_toList] at hbody
  refine ⟨texts.flatten ++ '"' :: rest, by simp, ?_⟩
  rw [lexeme, hbody]

theorem lexeme_of_read {c : Char} {cs rest : List Char} {numeral : Numeral} {value : Number}
    (hc : c = '-' ∨ c.isDigit = true) (hread : Numeral.read (c :: cs) = .ok (numeral, rest))
    (hvalue : numeral.value = .ok value) : lexeme c cs = (.number value, rest) := by
  unfold lexeme
  split
  iterate 10 exact absurd hc (by decide)
  rw [if_pos (by simpa using hc)]
  simp only [hread, hvalue]

-- A number out of range is no word.
theorem lexeme_of_read_error {c : Char} {cs rest : List Char} {numeral : Numeral} {fault : Fault}
    (hc : c = '-' ∨ c.isDigit = true) (hread : Numeral.read (c :: cs) = .ok (numeral, rest))
    (hvalue : numeral.value = .error fault) : lexeme c cs = (.broken fault, []) := by
  unfold lexeme
  split
  iterate 10 exact absurd hc (by decide)
  rw [if_pos (by simpa using hc)]
  simp only [hread, hvalue]

theorem isBlank_eq_false {c : Char} (hc : c = '-' ∨ c.isDigit = true) : isBlank c = false := by
  rcases hc with rfl | hc
  · rfl
  · simp only [isBlank, Bool.or_eq_false_iff, decide_eq_false_iff_not]
    refine ⟨⟨⟨?_, ?_⟩, ?_⟩, ?_⟩ <;> rintro rfl <;> exact absurd hc (by decide)

theorem isBlank_of_mem_whitespace {c : Char} (h : c ∈ whitespace) : isBlank c = true := by
  simpa [whitespace, isBlank, or_assoc] using h

-- Whitespace is skipped.
theorem scan_blanks_append {blanks : List Char} (h : blanks ⊆ whitespace) (cs : List Char) :
    scan [] (blanks ++ cs) = scan [] cs := by
  induction blanks with
  | nil => rfl
  | cons c blanks ih =>
    rw [List.cons_append, scan_cons_of_isBlank
      (isBlank_of_mem_whitespace (h List.mem_cons_self))]
    exact ih (List.subset_of_cons_subset h)

theorem scan_integer {n : Int} (hmin : -2 ^ 63 ≤ n) (hmax : n < 2 ^ 64) {rest : List Char}
    (hrest : Numeral.EndsBefore rest) :
    scan [] ((toString n).toList ++ rest) = .number (.int n) :: scan [] rest := by
  have hn : n.natAbs < Nat.pow 2 64 := by
    change n.natAbs < 2 ^ 64
    omega
  have hread := Numeral.read_toString hn hrest
  obtain ⟨c, cs, htext, hc⟩ := Numeral.exists_head_toString n
  rw [htext, List.cons_append] at hread ⊢
  rw [scan_nil_cons_of_not_isBlank (isBlank_eq_false hc),
    lexeme_of_read hc hread (Numeral.value_integer hmin)]

theorem lexeme_of_fixed {token : Token} {text : List Char} (h : (token, text) ∈ fixedTokens) :
    ∃ c cs, text = c :: cs ∧ isBlank c = false ∧ Numeral.EndsBefore (c :: cs) ∧
      ∀ rest, lexeme c (cs ++ rest) = (token, rest) := by
  simp only [fixedTokens, List.mem_cons, Prod.mk.injEq, List.not_mem_nil, or_false] at h
  rcases h with ⟨rfl, rfl⟩ | ⟨rfl, rfl⟩ | ⟨rfl, rfl⟩ | ⟨rfl, rfl⟩ | ⟨rfl, rfl⟩ | ⟨rfl, rfl⟩ |
    ⟨rfl, rfl⟩ | ⟨rfl, rfl⟩ | ⟨rfl, rfl⟩
  all_goals
    refine ⟨_, _, rfl, by decide, ?_, fun _ => rfl⟩
    rintro _ ⟨⟩
    decide

-- A word is read from the front of a text, however it is written.
theorem scan_of_writesToken {token : Token} {text rest : List Char} (h : WritesToken token text)
    (hrest : token.isNumber = true → Numeral.EndsBefore rest) :
    scan [] (text ++ rest) = token :: scan [] rest := by
  cases h with
  | fixed h =>
    obtain ⟨c, cs, rfl, hblank, -, hlexeme⟩ := lexeme_of_fixed h
    rw [List.cons_append, scan_nil_cons_of_not_isBlank hblank, hlexeme]
  | integer hmin hmax => exact scan_integer hmin hmax (hrest rfl)
  | string h =>
    obtain ⟨cs, htext, hlexeme⟩ := lexeme_of_writesString h rest
    rw [htext, scan_nil_cons_of_not_isBlank (by decide), hlexeme]

theorem endsBefore_blanks_append {blanks : List Char} (h : blanks ⊆ whitespace)
    {rest : List Char} (hrest : Numeral.EndsBefore rest) :
    Numeral.EndsBefore (blanks ++ rest) := by
  have hall : ∀ c ∈ whitespace, c.isDigit = false ∧ c ≠ '.' ∧ c ≠ 'e' ∧ c ≠ 'E' := by
    simp [whitespace, Char.isDigit]
  cases blanks with
  | nil => exact hrest
  | cons c blanks =>
    rintro _ ⟨⟩
    exact hall c (h List.mem_cons_self)

theorem endsBefore_of_writesToken {token : Token} {text : List Char} (h : WritesToken token text)
    (htoken : token.isNumber = false) (rest : List Char) :
    Numeral.EndsBefore (text ++ rest) := by
  cases h with
  | fixed h =>
    obtain ⟨c, cs, rfl, -, hends, -⟩ := lexeme_of_fixed h
    exact hends
  | integer hmin hmax => cases htoken
  | string h =>
    obtain ⟨-⟩ := h
    rintro _ ⟨⟩
    decide

-- A number ends before any text that does not begin with another one.
theorem endsBefore_of_writesTokens {tokens : List Token} {text : List Char}
    (h : WritesTokens tokens text) (hhead : ∀ token ∈ tokens.head?, token.isNumber = false) :
    Numeral.EndsBefore text := by
  cases h with
  | nil hblanks =>
    have hnil : Numeral.EndsBefore [] := by rintro _ ⟨⟩
    rw [← List.append_nil text]
    exact endsBefore_blanks_append hblanks hnil
  | cons hblanks htoken hrest =>
    exact endsBefore_blanks_append hblanks
      (endsBefore_of_writesToken htoken (hhead _ rfl) _)

-- The words of a text are those it is written from.
theorem scan_of_writesTokens {tokens : List Token} {text : List Char}
    (h : WritesTokens tokens text) (hseparated : Token.Separated tokens) :
    scan [] text = tokens := by
  induction h with
  | nil hblanks => exact scan_nil_eq_nil_iff.mpr fun c hc => isBlank_of_mem_whitespace (hblanks hc)
  | @cons token tokens blanks text rest hblanks htoken hrest ih =>
    obtain ⟨hnext, htail⟩ := List.isChain_cons.mp hseparated
    rw [scan_blanks_append hblanks, scan_of_writesToken htoken, ih htail]
    exact fun hnumber => endsBefore_of_writesTokens hrest fun next hhead =>
      hnext next hhead hnumber

end Lexer

end Estree.Json
