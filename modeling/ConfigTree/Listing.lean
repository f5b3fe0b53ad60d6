import ConfigTree.ConfigText

/-! The structural listing of a tree: every node with its key, kind, size and value, four spaces a
level. -/

namespace ConfigTree.Listing

def field (level : Nat) (name : String) (text : List Char) : List Char :=
  ConfigText.indent level ++ name.toList ++ ':' :: ' ' :: text ++ ['\n']

/-- What stands above the value of a node. -/
def heading (level : Nat) (key : Option String) (n : Node) : List Char :=
  (key.elim [] fun key => field level "key" (Json.quote key.toList)) ++
    field level "type" n.kind.name.toList ++ field level "len" (Text.ofNat n.size)

mutual

def value (level : Nat) : Node → List Char
  | .object ⟨entries⟩ =>
    field level "value" ['{'] ++ members (level + 1) entries ++
      ConfigText.indent level ++ ['}', '\n']
  | .array ns =>
    field level "value" ['['] ++ items (level + 1) none ns ++
      ConfigText.indent level ++ [']', '\n']
  | .userdata _ => field level "value" "\x7buserdata\x7d".toList
  | n => field level "value" (ConfigText.scalar n)
termination_by structural n => n

/-- Nodes under one key, or under none. -/
def items (level : Nat) (key : Option String) : List Node → List Char
  | [] => []
  | n :: ns => heading level key n ++ value level n ++ items level key ns
termination_by structural ns => ns

def members (level : Nat) : List (String × Member Node) → List Char
  | [] => []
  | (key, .single n) :: es => heading level (some key) n ++ value level n ++ members level es
  | (key, .repeated ns) :: es => items level (some key) ns ++ members level es
termination_by structural es => es

end

def print (n : Node) : String := String.ofList (heading 0 none n ++ value 0 n)

end ConfigTree.Listing
