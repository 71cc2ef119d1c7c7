import Estree.Form
import Estree.Decimal.Numeral
import Estree.Text.Quoted

namespace Estree

-- Numbers in source text: positional from a millionth up to below 10 ^ 21, an exponent elsewhere,
-- and no sign on zero.
def sourceNumeral : Decimal.NumeralStyle where
  positionalFrom := -6
  positionalTo := 20
  afterInteger := ""
  zero := "0"
  negativeZero := "0"
  tie := .up

namespace LiteralValue

-- The source text of a literal value.
def text : LiteralValue → String
  | .null => "null"
  | .boolean true => "true"
  | .boolean false => "false"
  | .number value => Decimal.numeral sourceNumeral value
  | .string value => Text.quote value

end LiteralValue

namespace RegexLiteral

def text (regex : RegexLiteral) : String :=
  "/" ++ regex.pattern ++ "/" ++ regex.flags

end RegexLiteral

end Estree
