import Estree.Text.Indent

namespace Estree

-- The white space a printer puts in front of lines: one unit for every nesting level, and one
-- before the continuation lines of a declarator list that spans several lines.
structure PrintOptions where
  indentUnit : String := Text.indentUnit
  continuationIndent : String := "    "
  deriving DecidableEq, Inhabited

namespace PrintOptions

-- The options with `width` blanks for every nesting level.
def withIndentWidth (options : PrintOptions) (width : Nat) : PrintOptions :=
  { options with indentUnit := "".pushn ' ' width }

end PrintOptions

end Estree
