namespace Estree.CommandLine

-- Why something cannot be read as text.
inductive ReadFailure where
  | notFound
  | notADirectory
  | isADirectory
  | invalidData
  | other (reason : String)
  deriving DecidableEq

-- A working directory. Its entries are named by their components, and hold bytes unless they are
-- directories themselves.
structure Directory where
  entries : List (List String × Option ByteArray)

namespace Directory

-- What stands at a place that is given by its components.
inductive Entry where
  | file (bytes : ByteArray)
  | directory
  | nothing

-- The place above the working directory and the root, of which nothing else is known.
def outside : List String := [".."]

def root : List String := ["/"]

def entryAt (directory : Directory) (place : List String) : Entry :=
  match directory.entries.lookup place with
  | some (some bytes) => .file bytes
  | some none => .directory
  | none =>
    if place = [] || place = outside || place = root ||
        directory.entries.any (place.isPrefixOf ·.1) then
      .directory
    else
      .nothing

-- The place one step further.
def step (place : List String) (component : String) : List String :=
  if component = "" || component = "." then place
  else if component = ".." then
    if place = [] || place = outside then outside
    else if place = root then root
    else place.dropLast
  else place ++ [component]

-- Follows the components of a path. Only directories can be passed through.
def follow (directory : Directory) (place : List String) :
    List String → Except ReadFailure ByteArray
  | [] =>
    match directory.entryAt place with
    | .file bytes => .ok bytes
    | .directory => .error .isADirectory
    | .nothing => .error .notFound
  | component :: path =>
    match directory.entryAt place with
    | .file _ => .error .notADirectory
    | .directory => directory.follow (step place component) path
    | .nothing => .error .notFound

-- The bytes of the file at a path. A path that starts with a slash leads from the root.
def read (directory : Directory) (path : String) : Except ReadFailure ByteArray :=
  directory.follow (if path.startsWith "/" then root else []) (path.splitOn "/")

end Directory

end Estree.CommandLine
