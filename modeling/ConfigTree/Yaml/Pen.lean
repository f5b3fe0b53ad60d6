import ConfigTree.Yaml.Cursor

/-! A pen that writes YAML layout.  It remembers its column, whether it has just left a blank, and
whether nothing but indentation and indicators stands on the line so far. -/

namespace ConfigTree.Yaml

structure Pen where
  /-- What is written, last character first. -/
  reversed : List Char
  column : Nat
  spaced : Bool
  indenting : Bool

namespace Pen

def start : Pen := ⟨[], 0, true, true⟩

def text (p : Pen) : List Char := p.reversed.reverse

/-- Writes a character that is no break. -/
def put (p : Pen) (c : Char) : Pen :=
  { p with reversed := c :: p.reversed, column := p.column + 1 }

def putAll (p : Pen) (s : List Char) : Pen := s.foldl put p

/-- Writes a break. -/
def putBreak (p : Pen) (c : Char) : Pen := { p with reversed := c :: p.reversed, column := 0 }

/-- Writes an indicator, apart from what stands before it if `apart`. -/
def indicator (p : Pen) (s : List Char) (apart spaced indenting : Bool) : Pen :=
  let p := if apart && !p.spaced then p.put ' ' else p
  { p.putAll s with spaced, indenting := p.indenting && indenting }

/-- Goes to column `indent`, on a new line unless only indentation stands on this one. -/
def newline (p : Pen) (indent : Nat) : Pen :=
  let p := if !p.indenting || indent < p.column || p.column == indent && !p.spaced
    then p.putBreak '\n' else p
  { p.putAll (List.replicate (indent - p.column) ' ') with spaced := true, indenting := true }

/-- The last thing written is a word. -/
def endWord (p : Pen) : Pen := { p with spaced := false, indenting := false }

end Pen

end ConfigTree.Yaml
