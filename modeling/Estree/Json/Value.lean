namespace Estree

namespace Json

-- A number of a JSON text: an integer, or a double if it has a fraction or an exponent or is out
-- of the range of integers.
inductive Number where
  | int (value : Int)
  | float (value : Float)

namespace Number

-- The nearest double, a tie going to the even neighbour.
def toFloat : Number → Float
  | .int value => Float.ofInt value
  | .float value => value

end Number

end Json

-- A JSON value. The members of an object are kept in order.
inductive Json where
  | null
  | bool (value : Bool)
  | number (value : Json.Number)
  | string (value : String)
  | array (items : List Json)
  | object (members : List (String × Json))

namespace Json

-- The members of an object in their order.
abbrev Members := List (String × Json)

namespace Members

-- Sets a member. One that is there already keeps its place.
def insert (name : String) (value : Json) : Members → Members
  | [] => [(name, value)]
  | (other, old) :: members =>
    if other = name then (name, value) :: members else (other, old) :: insert name value members

theorem sizeOf_lt_of_lookup {members : Members} {name : String} {value : Json}
    (h : members.lookup name = some value) : sizeOf value < sizeOf members := by
  induction members with
  | nil => simp at h
  | cons member members ih =>
    obtain ⟨other, old⟩ := member
    rw [List.lookup_cons] at h
    split at h
    · simp_all
      omega
    · have := ih h
      simp
      omega

end Members

-- What can be said of a value without looking inside an array or an object.
inductive Head where
  | null
  | bool (value : Bool)
  | number (value : Number)
  | string (value : String)
  | array
  | object

def head : Json → Head
  | .null => .null
  | .bool value => .bool value
  | .number value => .number value
  | .string value => .string value
  | .array _ => .array
  | .object _ => .object

namespace Head

-- The kind of value, with its article.
def noun : Head → String
  | .null => "null"
  | .bool _ => "a boolean"
  | .number _ => "a number"
  | .string _ => "a string"
  | .array => "an array"
  | .object => "an object"

end Head

end Json

end Estree
