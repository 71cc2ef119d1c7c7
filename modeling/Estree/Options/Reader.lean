import Estree.Json.Mismatch
import Estree.Json.Reader
import Estree.Options

namespace Estree.PrintOptions

-- The members that set an option.
inductive Setting where
  | indentUnit
  | continuationIndent
  deriving DecidableEq

namespace Setting

def name : Setting → String
  | .indentUnit => "indentUnit"
  | .continuationIndent => "continuationIndent"

def all : List Setting := [.indentUnit, .continuationIndent]

def named (name : String) : Except Json.Mismatch Setting :=
  match all.find? (·.name == name) with
  | some setting => .ok setting
  | none => .error (.unknownField name (all.map Setting.name))

end Setting

def set (options : PrintOptions) (setting : Setting) (value : String) : PrintOptions :=
  match setting with
  | .indentUnit => { options with indentUnit := value }
  | .continuationIndent => { options with continuationIndent := value }

-- What is wanted in place of options.
def expected : String := "struct PrintOptions"

def readMembers (options : PrintOptions) : Json.Members → Except Json.Mismatch PrintOptions
  | [] => .ok options
  | (name, value) :: members => do
    let setting ← Setting.named name
    let value ← value.readString
    readMembers (options.set setting value) members

-- Sets the options in their order to the items of an array.
def readItems (options : PrintOptions) :
    List Setting → List Json → Except Json.Mismatch (PrintOptions × List Json)
  | setting :: settings, item :: items => do
    let value ← item.readString
    readItems (options.set setting value) settings items
  | _, items => .ok (options, items)

-- Options as a JSON value: an object with some of them, or an array of the first ones. What is not
-- given keeps its default.
def ofJson : Json → Except Json.Mismatch PrintOptions
  | .object members => readMembers {} members
  | .array items => do
    let (options, rest) ← readItems {} Setting.all items
    if rest.isEmpty then
      return options
    else
      throw (.invalidLength items.length "fewer elements in array")
  | value => .error (.invalidType value.head expected)

-- Why a text does not give options.
inductive ReadError where
  | fault (cause : Json.Fault)
  | mismatch (cause : Json.Mismatch)

namespace ReadError

def message : ReadError → String
  | .fault cause => cause.message
  | .mismatch cause => cause.message

end ReadError

open Json (Token)

-- What is wrong with a word where something of another type is wanted.
def unexpected (wanted : String) : Token → ReadError
  | .null => .mismatch (.invalidType .null wanted)
  | .bool value => .mismatch (.invalidType (.bool value) wanted)
  | .number value => .mismatch (.invalidType (.number value) wanted)
  | .string value => .mismatch (.invalidType (.string value) wanted)
  | .openArray => .mismatch (.invalidType .array wanted)
  | .openObject => .mismatch (.invalidType .object wanted)
  | .brokenString fault | .broken fault => .fault fault
  | .closeArray | .closeObject | .comma | .colon => .fault .expectedValue

def stringToken : Token → Except ReadError String
  | .string value => .ok value
  | token => .error (unexpected "a string" token)

-- The option that a member name sets. None is set twice.
def memberName (seen : List Setting) : Token → Except ReadError Setting
  | .string name => do
    let setting ← (Setting.named name).mapError .mismatch
    if setting ∈ seen then throw (.mismatch (.duplicateField name)) else return setting
  | .brokenString fault => .error (.fault fault)
  | _ => .error (.fault .keyNotString)

-- The members of an object of which `seen` have been read, after an opening brace or a comma.
-- Every member is judged as soon as it is read.
def membersFrom (options : PrintOptions) (seen : List Setting) :
    List Token → Except ReadError (PrintOptions × List Token)
  | [] => .error (.fault .endInValue)
  | .closeObject :: _ => .error (.fault .trailingComma)
  | name :: tokens => do
    let setting ← memberName seen name
    match tokens with
    | [] => throw (.fault .endInObject)
    | .colon :: [] => throw (.fault .endInValue)
    | .colon :: value :: tokens =>
      let value ← stringToken value
      match tokens with
      | [] => throw (.fault .endInObject)
      | .closeObject :: tokens => return (options.set setting value, tokens)
      | .comma :: tokens => membersFrom (options.set setting value) (setting :: seen) tokens
      | _ => throw (.fault .expectedMemberEnd)
    | _ => throw (.fault .expectedColon)

def objectBody : List Token → Except ReadError (PrintOptions × List Token)
  | [] => .error (.fault .endInObject)
  | .closeObject :: tokens => .ok ({}, tokens)
  | tokens => membersFrom {} [] tokens

-- The end of an array of which all items that count have been read.
def arrayEnd (options : PrintOptions) : List Token → Except ReadError (PrintOptions × List Token)
  | [] => .error (.fault .endInArray)
  | .closeArray :: tokens => .ok (options, tokens)
  | .comma :: .closeArray :: _ => .error (.fault .trailingComma)
  | _ => .error (.fault .trailingCharacters)

-- The items of an array after its first one, for the settings that are left.
def itemsFrom (options : PrintOptions) :
    List Setting → List Token → Except ReadError (PrintOptions × List Token)
  | [], tokens => arrayEnd options tokens
  | setting :: settings, tokens =>
    match tokens with
    | [] => .error (.fault .endInArray)
    | .closeArray :: tokens => .ok (options, tokens)
    | .comma :: [] => .error (.fault .endInValue)
    | .comma :: .closeArray :: _ => .error (.fault .trailingComma)
    | .comma :: value :: tokens => do
      let value ← stringToken value
      itemsFrom (options.set setting value) settings tokens
    | _ => .error (.fault .expectedItemEnd)

def arrayBody : List Token → Except ReadError (PrintOptions × List Token)
  | [] => .error (.fault .endInArray)
  | .closeArray :: tokens => .ok ({}, tokens)
  | value :: tokens => do
    let value ← stringToken value
    itemsFrom (set {} .indentUnit value) [.continuationIndent] tokens

-- The options that some words begin with, and the words after them.
def ofTokens : List Token → Except ReadError (PrintOptions × List Token)
  | [] => .error (.fault .endInValue)
  | .openObject :: tokens => objectBody tokens
  | .openArray :: tokens => arrayBody tokens
  | token :: _ => .error (unexpected expected token)

-- Options as a JSON text. The text is judged as it is read, so that of several problems the first
-- one in the text is reported.
def ofText (text : String) : Except ReadError PrintOptions := do
  let (options, rest) ← ofTokens (Token.ofText text)
  (Json.expectEnd rest).mapError .fault
  return options

end Estree.PrintOptions
