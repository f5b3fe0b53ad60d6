import ConfigTree.Yaml.Pen
import ConfigTree.Yaml.Style

/-! Writing YAML text: block collections indented by two, the items of a sequence in a mapping not
indented at all, and empty collections in brackets.  A key that is long or has a break is written
after a question mark. -/

namespace ConfigTree.Yaml

/-- Positional from 1e-5 up to 1e16, with `.0` on whole numbers. -/
def numberStyle : Binary64.Style :=
  { positionalFrom := some (-5), positionalBelow := some 16, pointBelow := 16, plus := [],
    nan := ".nan".toList, infinity := ".inf".toList, negativeInfinity := "-.inf".toList }

namespace Pen

def plain (p : Pen) (s : List Char) : Pen :=
  let p := if !p.spaced && !s.isEmpty then p.put ' ' else p
  (p.putAll s).endWord

/-- The characters of a single-quoted scalar; `broken` after a break. -/
def singleQuotedBody (indent : Nat) : Bool → List Char → Pen → Pen
  | broken, [], p => if broken then p.newline indent else p
  | broken, c :: s, p =>
    if isBreak c then
      let p := if !broken && c == '\n' then p.putBreak '\n' else p
      singleQuotedBody indent true s { p.putBreak c with indenting := true }
    else if c == ' ' then singleQuotedBody indent broken s (p.put c)
    else
      let p := if broken then p.newline indent else p
      let p := if c == '\'' then p.put '\'' else p
      singleQuotedBody indent false s { p.put c with indenting := false }

def singleQuoted (p : Pen) (indent : Nat) (s : List Char) : Pen :=
  let p := p.indicator ['\''] true false false
  ((singleQuotedBody indent false s p).indicator ['\''] false false false).endWord

end Pen

def hexDigits (width n : Nat) : List Char :=
  let ds := (Nat.toDigits 16 n).map Char.toUpper
  List.replicate (width - ds.length) '0' ++ ds

/-- What stands after the backslash of an escaped character. -/
def escape (c : Char) : List Char :=
  match c with
  | '\x00' => ['0']
  | '\x07' => ['a']
  | '\x08' => ['b']
  | '\t' => ['t']
  | '\n' => ['n']
  | '\x0b' => ['v']
  | '\x0c' => ['f']
  | '\r' => ['r']
  | '\x1b' => ['e']
  | '"' => ['"']
  | '\\' => ['\\']
  | '\x85' => ['N']
  | '\xa0' => ['_']
  | '\u2028' => ['L']
  | '\u2029' => ['P']
  | c =>
    let n := c.toNat
    if n ≤ 0xFF then 'x' :: hexDigits 2 n
    else if n ≤ 0xFFFF then 'u' :: hexDigits 4 n
    else 'U' :: hexDigits 8 n

namespace Pen

def doubleQuoted (p : Pen) (s : List Char) : Pen :=
  let p := p.indicator ['"'] true false false
  let body := s.flatMap fun c =>
    if !isPrintable c || isBreak c || c == '"' || c == '\\' then '\\' :: escape c else [c]
  ((p.putAll body).indicator ['"'] false false false).endWord

/-- What follows the bar of a literal block: its indentation where the text starts with a blank, and
what becomes of the breaks at its end. -/
def literalHints (s : List Char) : List Char :=
  let indentation := if s.head?.any fun c => c == ' ' || isBreak c then ['2'] else []
  let chomping := match s.reverse with
    | [] => ['-']
    | c :: before =>
      if !isBreak c then ['-']
      else match before with
        | [] => ['+']
        | b :: _ => if isBreak b then ['+'] else []
  indentation ++ chomping

/-- The lines of a literal block; `broken` at the start of a line. -/
def literalBody (indent : Nat) : Bool → List Char → Pen → Pen
  | _, [], p => p
  | broken, c :: s, p =>
    if isBreak c then literalBody indent true s { p.putBreak c with indenting := true }
    else
      let p := if broken then p.newline indent else p
      literalBody indent false s { p.put c with indenting := false }

def literal (p : Pen) (indent : Nat) (s : List Char) : Pen :=
  let p := p.indicator ('|' :: literalHints s) true false false
  literalBody indent true s { p.putBreak '\n' with spaced := true, indenting := true }

/-- A string whose further lines are indented to `indent`. -/
def string (p : Pen) (indent : Nat) (asKey : Bool) (text : String) : Pen :=
  match Style.ofString text asKey with
  | .plain => p.plain text.toList
  | .singleQuoted => p.singleQuoted indent text.toList
  | .doubleQuoted => p.doubleQuoted text.toList
  | .literal => p.literal indent text.toList

end Pen

/-- A key that fits before a colon on its line. -/
def isSimpleKey (key : String) : Bool :=
  !Style.isMultiline key.toList && key.utf8ByteSize ≤ 128

/-- Where a collection stands that starts within one at `indent`. -/
def nested : Option Nat → Nat
  | none => 0
  | some n => n + 2

/-- Where the further lines of a scalar stand. -/
def hanging (indent : Option Nat) : Nat := indent.getD 0 + 2

mutual

/-- A value within a collection at `indent`, if there is one; `inMapping` after a key. -/
def write (indent : Option Nat) (inMapping : Bool) : Value → Pen → Pen
  | .null, p => p.plain "null".toList
  | .bool b, p => p.plain (if b then "true".toList else "false".toList)
  | .int n, p => p.plain (Text.ofInt n.toInt)
  | .float x, p => p.plain (x.format numberStyle)
  | .str s, p => p.string (hanging indent) false s
  | .seq [], p => (p.indicator ['['] true true false).indicator [']'] false false false
  | .map [], p => (p.indicator ['{'] true true false).indicator ['}'] false false false
  | .seq (v :: vs), p =>
    let indent := if inMapping && !p.indenting then indent.getD 0 else nested indent
    writeItems indent (v :: vs) p
  | .map (q :: qs), p => writePairs (nested indent) (q :: qs) p
termination_by structural v => v

def writeItems (indent : Nat) : List Value → Pen → Pen
  | [], p => p
  | v :: vs, p =>
    let p := (p.newline indent).indicator ['-'] true false true
    writeItems indent vs (write (some indent) false v p)
termination_by structural vs => vs

def writePairs (indent : Nat) : List (String × Value) → Pen → Pen
  | [], p => p
  | (k, v) :: ps, p =>
    let p := p.newline indent
    let p :=
      if isSimpleKey k then
        (p.string (indent + 2) true k).indicator [':'] false false false
      else
        let p := (p.indicator ['?'] true false true).string (indent + 2) false k
        (p.newline indent).indicator [':'] true false true
    writePairs indent ps (write (some indent) true v p)
termination_by structural ps => ps

end

/-- A document with one value, which ends in a break. -/
def print (v : Value) : String :=
  String.ofList ((write none false v .start).newline 0).text

end ConfigTree.Yaml
