import Estree.CommandLine.Arguments
import Estree.CommandLine.Directory
import Estree.Decode
import Estree.Options.Reader
import Estree.Printer

namespace Estree.CommandLine

-- Why a run prints nothing.
inductive RunError where
  | unreadableFile (path : String) (cause : ReadFailure)
  | unreadableInput (cause : ReadFailure)
  | badOptions (path : String) (cause : PrintOptions.ReadError)
  | badTree (name : String) (cause : ReadError)
  | unsupported (name : String) (cause : Unsupported)

namespace RunError

-- What was being done.
def context : RunError → String
  | .unreadableFile path _ => "failed to read " ++ path
  | .unreadableInput _ => "failed to read standard input"
  | .badOptions path _ => "failed to parse options file " ++ path
  | .badTree name _ => "failed to print " ++ name
  | .unsupported name _ => "failed to print " ++ name

-- Why it failed, if it is not that something cannot be read: the outer cause first.
def causes : RunError → List String
  | .unreadableFile _ _ => []
  | .unreadableInput _ => []
  | .badOptions _ cause => [cause.message]
  | .badTree _ cause => ["invalid ESTree JSON: " ++ cause.message, cause.message]
  | .unsupported _ cause => [cause.message]

-- Why something cannot be read.
def failure? : RunError → Option ReadFailure
  | .unreadableFile _ cause => some cause
  | .unreadableInput cause => some cause
  | _ => none

end RunError

-- Where a run reads from.
structure Sources (m : Type → Type) where
  file : String → m (Except ReadFailure ByteArray)
  input : m (Except ReadFailure ByteArray)

def asText (bytes : ByteArray) : Except ReadFailure String :=
  match String.fromUTF8? bytes with
  | some text => .ok text
  | none => .error .invalidData

section

variable {m : Type → Type} [Monad m]

-- Reads bytes as text.
def readText (source : m (Except ReadFailure ByteArray)) (failed : ReadFailure → RunError) :
    ExceptT RunError m String :=
  ExceptT.mk do
    let bytes ← source
    return (bytes.bind asText).mapError failed

def readFile (sources : Sources m) (path : String) : ExceptT RunError m String :=
  readText (sources.file path) (.unreadableFile path)

def readInput (sources : Sources m) : ExceptT RunError m String :=
  readText sources.input .unreadableInput

-- The options that a file gives.
def loadOptions (sources : Sources m) (path : String) : ExceptT RunError m PrintOptions := do
  let text ← readFile sources path
  MonadExcept.ofExcept ((PrintOptions.ofText text).mapError (.badOptions path))

-- The options of a run: those of the options file, with the indent width of the command line.
def resolveOptions (sources : Sources m) (arguments : Arguments) :
    ExceptT RunError m PrintOptions := do
  let options ← match arguments.options with
    | some path => loadOptions sources path
    | none => pure {}
  match arguments.indent with
  | some width => return options.withIndentWidth width
  | none => return options

-- The text of the tree that is read, and what it is called in messages.
def readTree (sources : Sources m) (arguments : Arguments) :
    ExceptT RunError m (String × String) := do
  match arguments.inputPath with
  | some path => return (← readFile sources path, path)
  | none => return (← readInput sources, "<stdin>")

-- The source text of the tree that is read. The options are read first.
def run (sources : Sources m) (arguments : Arguments) : ExceptT RunError m String := do
  let options ← resolveOptions sources arguments
  let (text, name) ← readTree sources arguments
  let tree ← MonadExcept.ofExcept ((Node.ofText text).mapError (.badTree name))
  MonadExcept.ofExcept ((tree.print options).mapError (.unsupported name))

-- What a command leaves behind: its exit code, its output and what it has to say about a failure.
structure Outcome where
  code : Nat
  output : String
  complaint : List String

def execute (sources : Sources m) (arguments : List String) : m Outcome := do
  match Arguments.parse arguments with
  | .error request =>
    match request.information? with
    | some text => return ⟨0, text, []⟩
    | none => return ⟨2, "", ["invalid arguments, see --help"]⟩
  | .ok arguments =>
    match ← (run sources arguments).run with
    | .ok text => return ⟨0, text ++ "\n", []⟩
    | .error e => return ⟨1, "", e.context :: e.causes⟩

end

end Estree.CommandLine
