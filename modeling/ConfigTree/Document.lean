import ConfigTree.Error
import ConfigTree.Json.Reader
import ConfigTree.Text.Blank
import ConfigTree.Yaml.Reader

/-! Documents: a tree and the dialect its text was written in. -/

namespace ConfigTree

inductive Dialect
  | json
  | yaml
  deriving DecidableEq, Repr, Inhabited

namespace Dialect

def name : Dialect → String
  | json => "json"
  | yaml => "yaml"

/-- The text starts, after blanks, with what opens a JSON object or array. -/
def opensJson (text : String) : Bool :=
  match Text.trimStart text.toList with
  | '{' :: _ | '[' :: _ => true
  | _ => false

def detect (text : String) : Dialect := if opensJson text then json else yaml

/-- The format a document in this dialect is written back in. -/
def format : Dialect → Format
  | json => .json
  | yaml => .yaml

def read (text : String) : Dialect → Except String Value
  | json => Json.read text
  | yaml => Yaml.read text

end Dialect

structure Document where
  root : Node
  dialect : Dialect
  deriving Inhabited

namespace Document

/-- Reads a document; `source` names it in errors.  A blank text is an empty object. -/
def parse (text source : String) (options : ReadOptions) : Except Error Document :=
  let dialect := Dialect.detect text
  if (Text.trim text.toList).isEmpty then .ok ⟨.object ∅, dialect⟩
  else match dialect.read text with
    | .error message => .error (.parse source message)
    | .ok value =>
      let root := value.toNode options
      if options.maxDepth < root.depth then .error (.tooDeep options.maxDepth)
      else .ok ⟨root, dialect⟩

end Document

end ConfigTree
