import Estree.Json.Numeral

namespace Estree.Json

-- The words of a JSON text.
inductive Token where
  | openArray
  | closeArray
  | openObject
  | closeObject
  | comma
  | colon
  | null
  | bool (value : Bool)
  | number (value : Number)
  | string (value : String)
  -- Text that begins a string and is none
  | brokenString (fault : Fault)
  -- Text that begins another word and is none, or begins none
  | broken (fault : Fault)

namespace Lexer

def isBlank (c : Char) : Bool :=
  c = ' ' || c = '\n' || c = '\t' || c = '\r'

def hexDigit? (c : Char) : Option Nat :=
  if c.isDigit then some (c.toNat - '0'.toNat)
  else if 'a' ≤ c && c ≤ 'f' then some (c.toNat - 'a'.toNat + 10)
  else if 'A' ≤ c && c ≤ 'F' then some (c.toNat - 'A'.toNat + 10)
  else none

-- Whether at least `n` bytes are left of a text in UTF-8.
def hasBytes (n : Nat) (cs : List Char) : Bool :=
  n ≤ (String.ofList (cs.take n)).utf8ByteSize

-- The four hexadecimal digits of an escaped code unit.
def codeUnit (cs : List Char) : Except Fault (Nat × List Char) :=
  if !hasBytes 4 cs then
    .error .endInString
  else
    match cs with
    | a :: b :: c :: d :: rest =>
      match hexDigit? a, hexDigit? b, hexDigit? c, hexDigit? d with
      | some a, some b, some c, some d => .ok (((a * 16 + b) * 16 + c) * 16 + d, rest)
      | _, _, _, _ => .error .invalidEscape
    | _ => .error .invalidEscape

def isLeading (unit : Nat) : Bool :=
  0xD800 ≤ unit && unit ≤ 0xDBFF

def isTrailing (unit : Nat) : Bool :=
  0xDC00 ≤ unit && unit ≤ 0xDFFF

-- The second code unit of a pair, which stands for one character together with the first.
def trailingUnit (leading : Nat) : List Char → Except Fault (Char × List Char)
  | [] => .error .endInString
  | ['\\'] => .error .endInString
  | '\\' :: 'u' :: cs => do
    let (trailing, rest) ← codeUnit cs
    if isTrailing trailing then
      return (Char.ofNat (0x10000 + (leading - 0xD800) * 0x400 + (trailing - 0xDC00)), rest)
    else
      throw .loneSurrogate
  | _ => .error .unfinishedSurrogatePair

-- The character that an escape by code units stands for.
def escapedUnit (cs : List Char) : Except Fault (Char × List Char) := do
  let (unit, rest) ← codeUnit cs
  if isTrailing unit then
    throw .loneSurrogate
  else if isLeading unit then
    trailingUnit unit rest
  else
    return (Char.ofNat unit, rest)

-- The character that stands after a backslash.
def escaped : List Char → Except Fault (Char × List Char)
  | [] => .error .endInString
  | c :: cs =>
    match c with
    | '"' => .ok ('"', cs)
    | '\\' => .ok ('\\', cs)
    | '/' => .ok ('/', cs)
    | 'b' => .ok ('\x08', cs)
    | 'f' => .ok ('\x0c', cs)
    | 'n' => .ok ('\n', cs)
    | 'r' => .ok ('\r', cs)
    | 't' => .ok ('\t', cs)
    | 'u' => escapedUnit cs
    | _ => .error .invalidEscape

theorem length_codeUnit_le {cs rest : List Char} {unit : Nat} (h : codeUnit cs = .ok (unit, rest)) :
    rest.length ≤ cs.length := by
  unfold codeUnit at h
  grind

theorem length_trailingUnit_le {cs rest : List Char} {leading : Nat} {c : Char}
    (h : trailingUnit leading cs = .ok (c, rest)) : rest.length ≤ cs.length := by
  unfold trailingUnit at h
  simp only [bind, Except.bind, pure, Except.pure, throw, throwThe, MonadExceptOf.throw] at h
  grind [→ length_codeUnit_le]

theorem length_escapedUnit_le {cs rest : List Char} {c : Char}
    (h : escapedUnit cs = .ok (c, rest)) : rest.length ≤ cs.length := by
  unfold escapedUnit at h
  simp only [bind, Except.bind, pure, Except.pure, throw, throwThe, MonadExceptOf.throw] at h
  grind [→ length_codeUnit_le, → length_trailingUnit_le]

theorem length_escaped_le {cs rest : List Char} {c : Char} (h : escaped cs = .ok (c, rest)) :
    rest.length ≤ cs.length := by
  unfold escaped at h
  grind [→ length_escapedUnit_le]

-- The characters of a string up to its closing quote; those read so far stand in reverse.
def stringBody (read : List Char) (cs : List Char) : Except Fault (String × List Char) :=
  match cs with
  | [] => .error .endInString
  | c :: cs =>
    if c = '"' then
      .ok (String.ofList read.reverse, cs)
    else if c = '\\' then
      match _h : escaped cs with
      | .ok (c, rest) => stringBody (c :: read) rest
      | .error fault => .error fault
    else if c.toNat < 0x20 then
      .error .controlCharacter
    else
      stringBody (c :: read) cs
termination_by cs.length
decreasing_by
  · have := length_escaped_le ‹_›
    simp
    omega
  · simp

-- The rest of a word whose first letter was read.
def word : List Char → List Char → Except Fault (List Char)
  | [], cs => .ok cs
  | _ :: _, [] => .error .endInValue
  | letter :: letters, c :: cs => if c = letter then word letters cs else .error .expectedWord

-- The word a text begins with, and what follows. Nothing is read after a broken word.
def lexeme (c : Char) (cs : List Char) : Token × List Char :=
  let named (letters : List Char) (token : Token) : Token × List Char :=
    match word letters cs with
    | .ok rest => (token, rest)
    | .error fault => (.broken fault, [])
  match c with
  | '[' => (.openArray, cs)
  | ']' => (.closeArray, cs)
  | '\x7b' => (.openObject, cs)
  | '\x7d' => (.closeObject, cs)
  | ',' => (.comma, cs)
  | ':' => (.colon, cs)
  | 'n' => named ['u', 'l', 'l'] .null
  | 't' => named ['r', 'u', 'e'] (.bool true)
  | 'f' => named ['a', 'l', 's', 'e'] (.bool false)
  | '"' =>
    match stringBody [] cs with
    | .ok (value, rest) => (.string value, rest)
    | .error fault => (.brokenString fault, [])
  | c =>
    if c = '-' || c.isDigit then
      match Numeral.read (c :: cs) with
      | .error fault => (.broken fault, [])
      | .ok (numeral, rest) =>
        match numeral.value with
        | .ok value => (.number value, rest)
        | .error fault => (.broken fault, [])
    else
      (.broken .expectedValue, [])

theorem length_stringBody_le {read cs rest : List Char} {value : String}
    (h : stringBody read cs = .ok (value, rest)) : rest.length ≤ cs.length := by
  fun_induction stringBody read cs <;> grind [→ length_escaped_le]

theorem length_word_le {letters cs rest : List Char} (h : word letters cs = .ok rest) :
    rest.length ≤ cs.length := by
  fun_induction word letters cs <;> grind

theorem length_lexeme_le (c : Char) (cs : List Char) : (lexeme c cs).2.length ≤ cs.length := by
  have named (letters : List Char) (token : Token) : (match word letters cs with
      | .ok rest => (token, rest)
      | .error fault => (Token.broken fault, [])).2.length ≤ cs.length := by
    grind [→ length_word_le]
  unfold lexeme
  grind [→ length_stringBody_le, → Numeral.length_read_lt]

-- Reads word after word; those read so far stand in reverse.
def scan (read : List Token) (cs : List Char) : List Token :=
  match cs with
  | [] => read.reverse
  | c :: cs =>
    if isBlank c then
      scan read cs
    else
      match _h : lexeme c cs with
      | (token, rest) => scan (token :: read) rest
termination_by cs.length
decreasing_by
  · simp
  · have h := length_lexeme_le c cs
    rw [‹lexeme c cs = _›] at h
    exact Nat.lt_succ_of_le h

end Lexer

namespace Token

-- The words of a text, up to the first broken one.
def ofText (text : String) : List Token :=
  Lexer.scan [] text.toList

end Token

end Estree.Json
