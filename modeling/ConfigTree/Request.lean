import ConfigTree.Error
import ConfigTree.Text.Blank

/-! Requests `path|verb|verb…`: the path to start from and the commands to run there.  A token is a
verb, or sub-paths set apart by spaces, the first of which starts with the delimiter. -/

namespace ConfigTree

inductive Command
  | length
  | type
  | keys
  | values
  | each
  | iterate
  | recurse
  | dump
  | select (paths : List String)
  deriving DecidableEq, Repr

namespace Command

def verb? : String → Option Command
  | "length" => some length
  | "type" => some type
  | "keys" => some keys
  | "values" => some values
  | "each" => some each
  | "iterate" => some iterate
  | "recurse" => some recurse
  | "dump" => some dump
  | _ => none

/-- The pieces of a token that are not empty, as sub-paths. -/
def subPaths (token : List Char) : List String :=
  ((token.splitOn ' ').filter (!·.isEmpty)).map String.ofList

def parse (d : Char) (token : String) : Except Error Command :=
  let trimmed := Text.trim token.toList
  match verb? (String.ofList trimmed) with
  | some command => .ok command
  | none =>
    if trimmed.head? = some d then .ok (select (subPaths trimmed))
    else .error (.invalidCommand (String.ofList trimmed))

/-- The token a command is written as. -/
def text : Command → String
  | length => "length"
  | type => "type"
  | keys => "keys"
  | values => "values"
  | each => "each"
  | iterate => "iterate"
  | recurse => "recurse"
  | dump => "dump"
  | select paths => " ".intercalate paths

end Command

structure Request where
  path : String
  chain : List Command
  deriving DecidableEq, Repr

namespace Request

/-- The tokens between the bars, the path first. -/
def tokens (text : String) : List String := (text.toList.splitOn '|').map String.ofList

def parse (d : Char) (text : String) : Except Error Request :=
  match tokens text with
  | [] => .ok ⟨"", []⟩
  | path :: rest => do
    let chain ← rest.mapM (Command.parse d)
    .ok ⟨String.ofList (Text.trim path.toList), chain⟩

end Request

end ConfigTree
