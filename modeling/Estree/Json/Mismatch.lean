import Estree.Decimal.Numeral
import Estree.Json.Value
import Estree.Text.Escaped

namespace Estree.Json

-- Doubles in messages: positional below 10 ^ 16 and down to 10 ^ -5, with a point always.
def shownNumeral : Decimal.NumeralStyle where
  positionalFrom := -5
  positionalTo := 15
  afterInteger := ".0"
  zero := "0.0"
  negativeZero := "-0.0"
  tie := .even

-- What was found, in a message.
def Head.shown : Head → String
  | .null => "null"
  | .bool true => "boolean `true`"
  | .bool false => "boolean `false`"
  | .number (.int value) => "integer `" ++ toString value ++ "`"
  | .number (.float value) => "floating point `" ++ Decimal.numeral shownNumeral value ++ "`"
  | .string value => "string " ++ Text.shown value
  | .array => "sequence"
  | .object => "map"

-- Why a value is not of the type that is wanted.
inductive Mismatch where
  | invalidType (found : Head) (expected : String)
  | unknownVariant (name : String) (variants : List String)
  | notSingleKey
  | missingField (name : String)
  | invalidLength (length : Nat) (expected : String)
  | unknownField (name : String) (fields : List String)
  | duplicateField (name : String)

namespace Mismatch

def ticked (name : String) : String :=
  "`" ++ name ++ "`"

-- A choice of names.
def oneOf : List String → String
  | [first] => ticked first
  | [first, second] => ticked first ++ " or " ++ ticked second
  | names => "one of " ++ ", ".intercalate (names.map ticked)

def message : Mismatch → String
  | .invalidType found expected => "invalid type: " ++ found.shown ++ ", expected " ++ expected
  | .unknownVariant name variants =>
    "unknown variant " ++ ticked name ++ ", expected " ++ oneOf variants
  | .notSingleKey => "invalid value: map, expected map with a single key"
  | .missingField name => "missing field " ++ ticked name
  | .invalidLength length expected =>
    "invalid length " ++ toString length ++ ", expected " ++ expected
  | .unknownField name fields => "unknown field " ++ ticked name ++ ", expected " ++ oneOf fields
  | .duplicateField name => "duplicate field " ++ ticked name

end Mismatch

def readString : Json → Except Mismatch String
  | .string value => .ok value
  | value => .error (.invalidType value.head "a string")

end Estree.Json
