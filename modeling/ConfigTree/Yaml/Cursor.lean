import ConfigTree.Yaml.Fault

/-! A place in a YAML text: what is left to read, and how far it lies into the text and its line. -/

namespace ConfigTree.Yaml

def isBlank (c : Char) : Bool := c == ' ' || c == '\t'

/-- Line feed, carriage return, next line, and the line and paragraph separators. -/
def isBreak (c : Char) : Bool :=
  c == '\n' || c == '\r' || c == '\x85' || c == '\u2028' || c == '\u2029'

/-- Letters of names: ASCII letters and digits, underscore and hyphen. -/
def isNameChar (c : Char) : Bool := c.isAlphanum || c == '_' || c == '-'

/-- Nothing follows, or a break. -/
def endsLine : List Char → Bool
  | [] => true
  | c :: _ => isBreak c

/-- Nothing follows, or a blank, or a break. -/
def endsWord : List Char → Bool
  | [] => true
  | c :: _ => isBlank c || isBreak c

structure Cursor where
  rest : List Char
  /-- Characters read. -/
  index : Nat
  line : Nat
  column : Nat

namespace Cursor

def start (text : List Char) : Cursor := ⟨text, 0, 0, 0⟩

def mark (c : Cursor) : Mark := ⟨c.line, c.column⟩

def fail {α : Type} (c : Cursor) (problem : Problem) : Except Fault α := .error ⟨problem, c.mark⟩

/-- Passes `n` characters of the line. -/
def skip (c : Cursor) (n : Nat) : Cursor :=
  { c with rest := c.rest.drop n, index := c.index + n, column := c.column + n }

/-- Passes the characters in front that satisfy `p`, none of which is a break. -/
def skipWhile (c : Cursor) (p : Char → Bool) : Cursor := c.skip (c.rest.takeWhile p).length

/-- Passes a break, if one is next, and gives the text it stands for: the separators stand for
themselves and every other break for a line feed. -/
def readBreak (c : Cursor) : List Char × Cursor :=
  match c.rest with
  | '\r' :: '\n' :: s => (['\n'], ⟨s, c.index + 2, c.line + 1, 0⟩)
  | b :: s =>
    if isBreak b then
      (if b == '\u2028' || b == '\u2029' then [b] else ['\n'], ⟨s, c.index + 1, c.line + 1, 0⟩)
    else ([], c)
  | [] => ([], c)

/-- At the start of a line, `---` or `...` as a word of its own. -/
def atDocumentMark (c : Cursor) : Bool :=
  c.column == 0 && match c.rest with
    | '-' :: '-' :: '-' :: s => endsWord s
    | '.' :: '.' :: '.' :: s => endsWord s
    | _ => false

/-- Passes blanks and a comment. -/
def skipComment (c : Cursor) : Cursor :=
  let c := c.skipWhile isBlank
  if c.rest.head? = some '#' then c.skipWhile (!isBreak ·) else c

end Cursor

end ConfigTree.Yaml
