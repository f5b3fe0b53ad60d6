/-! What can be wrong with a JSON text, and where.  A fault keeps the text that was not yet read
when it was met, and how many bytes further it stands; its line and column follow from that.  Lines
count from one, and a column is the number of bytes since the line began. -/

namespace ConfigTree.Json

inductive Problem
  | eofList
  | eofObject
  | eofString
  | eofValue
  | expectedColon
  | expectedListCommaOrEnd
  | expectedObjectCommaOrEnd
  | expectedIdent
  | expectedValue
  | invalidEscape
  | invalidNumber
  | numberOutOfRange
  | controlCharacter
  | keyMustBeString
  | loneSurrogate
  | trailingComma
  | trailingCharacters
  | unpairedSurrogate
  | recursionLimit
  deriving DecidableEq, Repr

def Problem.message : Problem → String
  | eofList => "EOF while parsing a list"
  | eofObject => "EOF while parsing an object"
  | eofString => "EOF while parsing a string"
  | eofValue => "EOF while parsing a value"
  | expectedColon => "expected `:`"
  | expectedListCommaOrEnd => "expected `,` or `]`"
  | expectedObjectCommaOrEnd => "expected `,` or `\x7d`"
  | expectedIdent => "expected ident"
  | expectedValue => "expected value"
  | invalidEscape => "invalid escape"
  | invalidNumber => "invalid number"
  | numberOutOfRange => "number out of range"
  | controlCharacter => "control character (\\u0000-\\u001F) found while parsing a string"
  | keyMustBeString => "key must be a string"
  | loneSurrogate => "lone leading surrogate in hex escape"
  | trailingComma => "trailing comma"
  | trailingCharacters => "trailing characters"
  | unpairedSurrogate => "unexpected end of hex escape"
  | recursionLimit => "recursion limit exceeded"

structure Fault where
  problem : Problem
  /-- The text not yet read. -/
  rest : List Char
  /-- Bytes of it before the fault. -/
  ahead : Nat
  deriving DecidableEq, Repr

abbrev Result (α : Type) := Except Fault (α × List Char)

def fail {α : Type} (problem : Problem) (rest : List Char) (ahead : Nat) : Result α :=
  .error ⟨problem, rest, ahead⟩

def byteLength : List Char → Nat
  | [] => 0
  | c :: s => c.utf8Size + byteLength s

/-- Line and column after `left` bytes, starting at the given ones. -/
def advance (line column : Nat) : Nat → List Char → Nat × Nat
  | _, [] => (line, column)
  | left, c :: s =>
    if left < c.utf8Size then (line, column + left)
    else if c = '\n' then advance (line + 1) 0 (left - c.utf8Size) s
    else advance line (column + c.utf8Size) (left - c.utf8Size) s

namespace Fault

/-- Line and column in the text that was read. -/
def position (f : Fault) (text : List Char) : Nat × Nat :=
  advance 1 0 (byteLength text - byteLength f.rest + f.ahead) text

def message (f : Fault) (text : List Char) : String :=
  let (line, column) := f.position text
  f.problem.message ++ " at line " ++ toString line ++ " column " ++ toString column

end Fault

end ConfigTree.Json
