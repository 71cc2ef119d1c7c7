namespace Estree.CommandLine

-- How log lines are laid out.
inductive LogFormat where
  | text
  | tree
  | json
  deriving DecidableEq, Repr

namespace LogFormat

-- The format that goes by a name in any case. Other names mean plain text.
def ofName (name : String) : LogFormat :=
  let name := name.map Char.toLower
  if name = "tree" then .tree
  else if name = "json" then .json
  else .text

end LogFormat

end Estree.CommandLine
