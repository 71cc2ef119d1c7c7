namespace Estree.CommandLine

-- What the command line asks for.
structure Arguments where
  file : Option String := none
  options : Option String := none
  indent : Option Nat := none
  deriving DecidableEq

namespace Arguments

-- The file to read, unless it is the standard input.
def inputPath (arguments : Arguments) : Option String :=
  arguments.file.filter (· ≠ "-")

end Arguments

-- Why no run follows from a command line.
inductive UsageError where
  | unknownArgument
  | argumentConflict
  | invalidValue
  | valueValidation
  | tooManyValues
  | displayHelp
  | displayVersion
  deriving DecidableEq, Repr

namespace UsageError

def help : String :=
  "\n".intercalate [
    "Print an ESTree JSON syntax tree back as JavaScript source",
    "",
    "Usage: jsprint [OPTIONS] [FILE]",
    "",
    "Arguments:",
    "  [FILE]  ESTree JSON file to print. Reads stdin when omitted or `-`",
    "",
    "Options:",
    "      --options <PATH>  JSON file with printer options (`indentUnit`, `continuationIndent`)",
    "      --indent <N>      Indent width in spaces. Overrides the options file",
    "  -h, --help            Print help",
    "  -V, --version         Print version",
    ""]

def version : String :=
  "jsprint 0.1.0\n"

-- What is printed where information was asked for.
def information? : UsageError → Option String
  | .displayHelp => some help
  | .displayVersion => some version
  | _ => none

end UsageError

-- What a value on the command line is for.
inductive Target where
  | file
  | options
  | indent
  deriving DecidableEq

-- A value that has not been settled yet: one that an option waits for, or one that was given.
inductive Pending where
  | nothing
  | awaited (target : Target)
  | given (target : Target) (value : String)
  deriving DecidableEq

-- An indent width: decimal digits, with a plus sign before them or not, from 1 to 16.
def readWidth? (value : String) : Option Nat :=
  let digits := match value.toList with
    | '+' :: digits => digits
    | digits => digits
  if digits.isEmpty || !digits.all Char.isDigit then
    none
  else
    let width := digits.foldl (fun n c => n * 10 + (c.toNat - '0'.toNat)) 0
    if 1 ≤ width && width ≤ 16 then some width else none

namespace Arguments

def has (arguments : Arguments) : Target → Bool
  | .file => arguments.file.isSome
  | .options => arguments.options.isSome
  | .indent => arguments.indent.isSome

-- Sets what a value is for. Nothing is set twice, and a path is not empty.
def accept (arguments : Arguments) (target : Target) (value : String) :
    Except UsageError Arguments :=
  if arguments.has target then
    .error .argumentConflict
  else
    match target with
    | .file => if value.isEmpty then .error .invalidValue else .ok { arguments with file := value }
    | .options =>
      if value.isEmpty then .error .invalidValue else .ok { arguments with options := value }
    | .indent =>
      match readWidth? value with
      | some width => .ok { arguments with indent := width }
      | none => .error .valueValidation

end Arguments

-- How far a command line has been understood.
structure Progress where
  arguments : Arguments := {}
  pending : Pending := .nothing

namespace Progress

-- Takes up the pending value. A value that never came is an error.
def settle (progress : Progress) : Except UsageError Arguments :=
  match progress.pending with
  | .nothing => .ok progress.arguments
  | .awaited _ => .error .invalidValue
  | .given target value => progress.arguments.accept target value

def hasFile (progress : Progress) : Bool :=
  progress.arguments.file.isSome || progress.pending matches .given .file _

-- An argument that stands for itself: the file, and there is one only.
def positional (progress : Progress) (value : String) : Except UsageError Progress :=
  if progress.hasFile then
    .error .unknownArgument
  else do
    return ⟨← progress.settle, .given .file value⟩

-- An option, with its value or without.
def option (progress : Progress) (target : Target) (value : Option String) :
    Except UsageError Progress := do
  let arguments ← progress.settle
  match value with
  | some value => return ⟨← arguments.accept target value, .nothing⟩
  | none => return ⟨arguments, .awaited target⟩

-- A request for information ends the command line, once all before it is settled.
def inform (progress : Progress) (request : UsageError) : Except UsageError Progress := do
  let _ ← progress.settle
  throw request

-- An argument with two dashes before its name. One that is not understood is reported before
-- anything that is still pending.
def long (progress : Progress) (name : String) (value : Option String) :
    Except UsageError Progress :=
  if name = "options" then
    progress.option .options value
  else if name = "indent" then
    progress.option .indent value
  else if name = "help" then
    if value.isSome then .error .tooManyValues else progress.inform .displayHelp
  else if name = "version" then
    if value.isSome then .error .tooManyValues else progress.inform .displayVersion
  else
    .error .unknownArgument

-- An argument with one dash before its letters, of which the first one counts.
def short (progress : Progress) (letter : Char) : Except UsageError Progress :=
  if letter = 'h' then progress.inform .displayHelp
  else if letter = 'V' then progress.inform .displayVersion
  else .error .unknownArgument

-- An argument without dashes: the value that an option waits for, or a positional one.
def plain (progress : Progress) (value : String) : Except UsageError Progress :=
  match progress.pending with
  | .awaited target => .ok { progress with pending := .given target value }
  | _ => progress.positional value

-- The name of a long argument, and the value after an equals sign.
def splitValue (cs : List Char) : String × Option String :=
  match cs.dropWhile (· ≠ '=') with
  | [] => (String.ofList cs, none)
  | _ :: value => (String.ofList (cs.takeWhile (· ≠ '=')), some (String.ofList value))

def next (progress : Progress) (argument : String) : Except UsageError Progress :=
  match argument.toList with
  | '-' :: '-' :: cs => progress.long (splitValue cs).1 (splitValue cs).2
  | '-' :: letter :: _ => progress.short letter
  | _ => progress.plain argument

end Progress

namespace Arguments

-- Understands arguments from left to right. After two dashes all are positional.
def parseFrom (progress : Progress) : List String → Except UsageError Arguments
  | [] => progress.settle
  | argument :: rest =>
    if argument = "--" then
      (rest.foldlM Progress.positional progress).bind Progress.settle
    else
      match progress.next argument with
      | .ok progress => parseFrom progress rest
      | .error e => .error e

def parse (arguments : List String) : Except UsageError Arguments :=
  parseFrom {} arguments

end Arguments

end Estree.CommandLine
