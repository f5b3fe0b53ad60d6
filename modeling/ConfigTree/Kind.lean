/-! The kinds of nodes and their names. -/

namespace ConfigTree

inductive Kind
  | object
  | array
  | int
  | float
  | string
  | boolean
  | time
  | userdata
  | null
  deriving DecidableEq, Repr

namespace Kind

def name : Kind → String
  | object => "object"
  | array => "array"
  | int => "int"
  | float => "float"
  | string => "string"
  | boolean => "boolean"
  | time => "time"
  | userdata => "userdata"
  | null => "null"

/-- Names and their synonyms, in lower case. -/
def ofLowerName? : String → Option Kind
  | "object" | "obj" => some object
  | "array" | "arr" => some array
  | "int" | "integer" => some int
  | "float" | "double" | "number" => some float
  | "string" | "str" => some string
  | "bool" | "boolean" => some boolean
  | "time" => some time
  | "userdata" => some userdata
  | "null" => some null
  | _ => none

/-- Names are read without regard to the case of the letters A to Z. -/
def ofName? (name : String) : Option Kind :=
  ofLowerName? (String.ofList (name.toList.map Char.toLower))

def isCompound : Kind → Bool
  | object | array => true
  | _ => false

@[simp] theorem ofLowerName?_name (k : Kind) : ofLowerName? k.name = some k := by
  cases k <;> rfl

end Kind

end ConfigTree
