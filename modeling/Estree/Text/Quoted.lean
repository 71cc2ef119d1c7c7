namespace Estree.Text

-- How a character stands inside a single-quoted string literal. The characters that would end the
-- literal or break its line are escaped, all others stand for themselves.
def escapeQuoted (c : Char) : List Char :=
  if c = '\\' then ['\\', '\\']
  else if c = '\x27' then ['\\', '\x27']
  else if c = '\n' then ['\\', 'n']
  else if c = '\r' then ['\\', 'r']
  else if c = '\u2028' then ['\\', 'u', '2', '0', '2', '8']
  else if c = '\u2029' then ['\\', 'u', '2', '0', '2', '9']
  else [c]

-- The single-quoted string literal that denotes a text.
def quote (text : String) : String :=
  String.ofList ('\x27' :: (text.toList.flatMap escapeQuoted ++ ['\x27']))

end Estree.Text
