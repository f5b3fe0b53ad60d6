import ConfigTree.Document
import ConfigTree.Literal
import ConfigTree.Text.Word

/-! Values given inline: a text that looks like a document is read as one, and any other is a
literal.  A value may also be asked for in a certain kind. -/

namespace ConfigTree.Inline

def isKeyChar (c : Char) : Bool := Text.isWord c || c == '.' || c == '-'

/-- The text starts with `key:` and a blank, or is that alone. -/
def startsMapping (s : List Char) : Bool :=
  let s := Text.trimStart s
  match s.takeWhile isKeyChar, s.dropWhile isKeyChar with
  | _ :: _, ':' :: rest => rest.head?.all Text.isBlank
  | _, _ => false

/-- The text looks like a document: it opens a JSON collection, has several lines, or starts with
a key. -/
def isStructured (text : String) : Bool :=
  Dialect.opensJson text || (Text.trim text.toList).contains '\n' || startsMapping text.toList

/-- A structured text that is malformed is a literal after all. -/
def parse (text : String) (options : ReadOptions) : Except Error Node :=
  if isStructured text then
    match Document.parse text "value" options with
    | .ok document => .ok document.root
    | .error (.parse _ _) => .ok (Literal.parse text)
    | .error e => .error e
  else .ok (Literal.parse text)

def toFloat (text : String) : Node → Node
  | .float x => .float x
  | .int n => .float (.ofInt n.toInt)
  | n => (Literal.float? text).elim n .float

def toTime (text : String) : Node → Node
  | .time x | .float x => .time x
  | .int n => .time (.ofInt n.toInt)
  | n => (Literal.float? text).elim n .time

def toBool (text : String) : Node → Node
  | .bool b => .bool b
  | _ => .bool (!text.isEmpty)

/-- The reading of `text` that comes nearest to the kind asked for. -/
def convert (text : String) (options : ReadOptions) : Kind → Except Error Node
  | .string => .ok (.str text)
  | .int => .ok ((Literal.integer? text).elim (Literal.parse text) .int)
  | .float => .ok (toFloat text (Literal.parse text))
  | .boolean => .ok (toBool text (Literal.parse text))
  | .time => .ok (toTime text (Literal.parse text))
  | .object | .array | .null | .userdata => parse text options

/-- A value of exactly the kind asked for. -/
def parseAs (kind : Kind) (text : String) (options : ReadOptions) : Except Error Node := do
  let n ← convert text options kind
  if n.kind = kind then .ok n else .error (.coercion text kind n.kind)

end ConfigTree.Inline
