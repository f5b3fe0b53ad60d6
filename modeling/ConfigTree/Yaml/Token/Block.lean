import ConfigTree.Yaml.Cursor

/-! Block scalars: the lines below a `|` or `>` that are indented far enough.  A literal scalar
keeps its breaks; a folded one joins lines that neither start nor end in a blank. -/

namespace ConfigTree.Yaml.Block

/-- What becomes of the breaks at the end. -/
inductive Chomping
  /-- All are dropped. -/
  | strip
  /-- The first is kept. -/
  | clip
  | keep
  deriving DecidableEq, Repr

structure Header where
  chomping : Chomping
  /-- Columns the text is indented by, where they are given. -/
  increment : Option Nat

def chomping? : Char → Option Chomping
  | '+' => some .keep
  | '-' => some .strip
  | _ => none

def increment? (c : Char) : Option Nat := if c.isDigit then some (c.toNat - '0'.toNat) else none

/-- The header after the indicator: chomping and indentation in either order. -/
def header (s : List Char) : Header × Nat :=
  match s with
  | a :: s =>
    match chomping? a, increment? a with
    | some k, _ => match s.head?.bind increment? with
      | some n => (⟨k, some n⟩, 2)
      | none => (⟨k, none⟩, 1)
    | none, some n => match s.head?.bind chomping? with
      | some k => (⟨k, some n⟩, 2)
      | none => (⟨.clip, some n⟩, 1)
    | none, none => (⟨.clip, none⟩, 0)
  | [] => (⟨.clip, none⟩, 0)

/-- Passes indentation and empty lines.  Gives the breaks, the greatest column reached, and the
place of the first line that is not empty.  Without an indentation every space counts. -/
def breaks (indent : Option Nat) :
    Nat → List Char → Nat → Cursor → Except Fault (List Char × Nat × Cursor)
  | 0, read, widest, c => .ok (read, widest, c)
  | fuel + 1, read, widest, c =>
    let spaces := (c.rest.takeWhile (· == ' ')).length
    let c := c.skip (match indent with
      | none => spaces
      | some n => min spaces (n - c.column))
    let widest := max widest c.column
    if c.rest.head? = some '\t' ∧ indent.all (c.column < ·) then c.fail .tabIndentation
    else if c.rest.isEmpty || !endsLine c.rest then .ok (read, widest, c)
    else
      let (b, c) := c.readBreak
      breaks indent fuel (read ++ b) widest c

structure Progress where
  text : List Char
  /-- The break after the last line. -/
  leading : List Char
  /-- The breaks of the empty lines after it. -/
  trailing : List Char
  /-- The last line started with a blank. -/
  blank : Bool

/-- Reads the lines that stand at column `indent`. -/
def lines (literal : Bool) (indent : Nat) :
    Nat → Progress → Cursor → Except Fault (Progress × Cursor)
  | 0, p, c => .ok (p, c)
  | fuel + 1, p, c =>
    match c.rest with
    | [] => .ok (p, c)
    | x :: _ =>
      if c.column = indent then do
        let blank := isBlank x
        let joined :=
          if !literal && p.leading == ['\n'] && !p.blank && !blank then
            if p.trailing.isEmpty then [' '] else p.trailing
          else p.leading ++ p.trailing
        let line := c.rest.takeWhile (!isBreak ·)
        let (b, c) := (c.skip line.length).readBreak
        let (trailing, _, c) ← breaks (some indent) c.rest.length [] 0 c
        lines literal indent fuel ⟨p.text ++ joined ++ line, b, trailing, blank⟩ c
      else .ok (p, c)

/-- A block scalar from its indicator, below a node indented to `parent`. -/
def read (literal : Bool) (parent : Int) (c : Cursor) : Except Fault (String × Cursor) := do
  let (header, width) := header (c.rest.drop 1)
  if header.increment = some 0 then c.fail .invalidBlockHeader
  else
    let c := (c.skip (1 + width)).skipComment
    if !endsLine c.rest then c.fail .invalidBlockHeader
    else
      let c := c.readBreak.2
      let given := header.increment.map fun n => (max parent 0).toNat + n
      let (trailing, widest, c) ← breaks given c.rest.length [] 0 c
      let indent := given.getD (max widest (max (parent + 1) 1).toNat)
      let (p, c) ← lines literal indent c.rest.length ⟨[], [], trailing, false⟩ c
      let tail := match header.chomping with
        | .strip => []
        | .clip => p.leading
        | .keep => p.leading ++ p.trailing
      .ok (String.ofList (p.text ++ tail), c)

end ConfigTree.Yaml.Block
