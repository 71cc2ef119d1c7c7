import Estree.Json.Lexer

namespace Estree.Json

namespace Reader

-- An array or object of which a value is being read. The items read so far stand in reverse.
inductive Frame where
  | array (items : List Json)
  | object (members : Members) (name : String)

-- What has been read, and what may come next. The innermost open array or object comes first.
inductive State where
  -- A value
  | value (stack : List Frame)
  -- The first item of an array, or its end
  | firstItem (stack : List Frame)
  -- Another item of an array, after a comma
  | item (items : List Json) (stack : List Frame)
  -- A comma, or the end of an array
  | afterItem (items : List Json) (stack : List Frame)
  -- The first name in an object, or its end
  | firstName (stack : List Frame)
  -- Another name in an object, after a comma
  | name (members : Members) (stack : List Frame)
  -- The colon after a name
  | colon (members : Members) (name : String) (stack : List Frame)
  -- A comma, or the end of an object
  | afterMember (members : Members) (stack : List Frame)
  -- Nothing more
  | done (value : Json)

-- A value has been read.
def complete (value : Json) : List Frame → State
  | [] => .done value
  | .array items :: stack => .afterItem (value :: items) stack
  | .object members name :: stack => .afterMember (members.insert name value) stack

-- Enters an array or object, unless that would be the one at the limit.
def enter (limit : Option Nat) (stack : List Frame) (state : State) : Except Fault State :=
  if limit.any (· ≤ stack.length + 1) then .error .tooDeep else .ok state

-- A word where a value is due.
def startValue (limit : Option Nat) (stack : List Frame) : Token → Except Fault State
  | .null => .ok (complete .null stack)
  | .bool value => .ok (complete (.bool value) stack)
  | .number value => .ok (complete (.number value) stack)
  | .string value => .ok (complete (.string value) stack)
  | .openArray => enter limit stack (.firstItem stack)
  | .openObject => enter limit stack (.firstName stack)
  | .brokenString fault => .error fault
  | .broken fault => .error fault
  | .closeArray | .closeObject | .comma | .colon => .error .expectedValue

-- A word where a name is due.
def startMember (members : Members) (stack : List Frame) : Token → Except Fault State
  | .string name => .ok (.colon members name stack)
  | .brokenString fault => .error fault
  | _ => .error .keyNotString

def step (limit : Option Nat) : State → Token → Except Fault State
  | .value stack, token => startValue limit stack token
  | .firstItem stack, .closeArray => .ok (complete (.array []) stack)
  | .firstItem stack, token => startValue limit (.array [] :: stack) token
  | .item _ _, .closeArray => .error .trailingComma
  | .item items stack, token => startValue limit (.array items :: stack) token
  | .afterItem items stack, .comma => .ok (.item items stack)
  | .afterItem items stack, .closeArray => .ok (complete (.array items.reverse) stack)
  | .afterItem _ _, _ => .error .expectedItemEnd
  | .firstName stack, .closeObject => .ok (complete (.object []) stack)
  | .firstName stack, token => startMember [] stack token
  | .name _ _, .closeObject => .error .trailingComma
  | .name members stack, token => startMember members stack token
  | .colon members name stack, .colon => .ok (.value (.object members name :: stack))
  | .colon _ _ _, _ => .error .expectedColon
  | .afterMember members stack, .comma => .ok (.name members stack)
  | .afterMember members stack, .closeObject => .ok (complete (.object members) stack)
  | .afterMember _ _, _ => .error .expectedMemberEnd
  | .done _, _ => .error .trailingCharacters

-- What is missing where the text ends.
def atEnd : State → Fault
  | .value _ | .item _ _ | .name _ _ | .done _ => .endInValue
  | .firstItem _ | .afterItem _ _ => .endInArray
  | .firstName _ | .colon _ _ _ | .afterMember _ _ => .endInObject

-- Reads words until a value is complete.
def run (limit : Option Nat) (state : State) (tokens : List Token) :
    Except Fault (Json × List Token) :=
  match state, tokens with
  | .done value, tokens => .ok (value, tokens)
  | state, [] => .error (atEnd state)
  | state, token :: tokens =>
    match step limit state token with
    | .ok state => run limit state tokens
    | .error fault => .error fault

end Reader

-- The value that some words begin with, and the words after it. Under a limit, opening as many
-- arrays and objects one in another is a fault.
def readValue (limit : Option Nat) (tokens : List Token) : Except Fault (Json × List Token) :=
  Reader.run limit (.value []) tokens

-- Nothing may follow.
def expectEnd (tokens : List Token) : Except Fault Unit :=
  if tokens.isEmpty then .ok () else .error .trailingCharacters

-- The value that a text denotes.
def parse (text : String) : Except Fault Json := do
  let (value, rest) ← readValue none (Token.ofText text)
  expectEnd rest
  return value

end Estree.Json
