import ConfigTree.Yaml.Cursor

/-! The blanks and breaks between two words of a flow or plain scalar.  A gap without a break stands
for itself; one break folds into a space, and of several the first is dropped. -/

namespace ConfigTree.Yaml

structure Gap where
  /-- A break was read. -/
  broken : Bool
  /-- Blanks where there is no break. -/
  blanks : List Char
  /-- The first break. -/
  leading : List Char
  /-- The breaks after it. -/
  trailing : List Char

namespace Gap

def none : Gap := ⟨false, [], [], []⟩

/-- After a break that stands for nothing. -/
def escaped : Gap := ⟨true, [], [], []⟩

/-- What the gap stands for. -/
def text (g : Gap) : List Char :=
  if g.broken then
    if g.leading = ['\n'] then if g.trailing.isEmpty then [' '] else g.trailing
    else g.leading ++ g.trailing
  else g.blanks

def addBlank (g : Gap) (c : Char) : Gap :=
  if g.broken then g else { g with blanks := g.blanks ++ [c] }

def addBreak (g : Gap) (b : List Char) : Gap :=
  if g.broken then { g with trailing := g.trailing ++ b } else ⟨true, [], b, []⟩

/-- Reads on to the next word, which is no further than the bound.  A tab left of column `indent` on
a new line is refused. -/
def read (indent : Nat) : Nat → Gap → Cursor → Except Fault (Gap × Cursor)
  | 0, g, c => .ok (g, c)
  | fuel + 1, g, c =>
    match c.rest with
    | [] => .ok (g, c)
    | x :: _ =>
      if isBlank x then
        if g.broken ∧ c.column < indent ∧ x = '\t' then c.fail .tabIndentation
        else read indent fuel (g.addBlank x) (c.skip 1)
      else if isBreak x then
        let (b, c) := c.readBreak
        read indent fuel (g.addBreak b) c
      else .ok (g, c)

end Gap

end ConfigTree.Yaml
