import ConfigTree.Yaml.Cursor
import ConfigTree.Yaml.Scalar

/-! In which style a string is written.  A string with a line feed is a literal block where it can
be; one that would be read back as something else is quoted; and any other is plain unless an
indicator or a blank stands in its way.  What cannot be printed is escaped in double quotes. -/

namespace ConfigTree.Yaml

inductive Style
  | plain
  | singleQuoted
  | doubleQuoted
  | literal
  deriving DecidableEq, Repr

/-- Characters that are written as they are. -/
def isPrintable (c : Char) : Bool :=
  let n := c.toNat
  n == 0xA || (0x20 ≤ n && n ≤ 0x7E) || (0xA0 ≤ n && n ≤ 0xD7FF) ||
    (0xE000 ≤ n && n ≤ 0xFFFD && n != 0xFEFF) || 0x10000 ≤ n

namespace Style

/-- Indicators that a plain scalar may not start with. -/
def isLeadingIndicator (c : Char) : Bool := "#,[]\x7b\x7d&*!|>'\"%@`".toList.contains c

/-- An indicator stands where it would end or change a plain scalar. -/
def hasIndicator : List Char → Bool
  | [] => false
  | c :: s =>
    isLeadingIndicator c || (c == '?' || c == ':' || c == '-') && endsWord s ||
      ['-', '-', '-'].isPrefixOf (c :: s) || ['.', '.', '.'].isPrefixOf (c :: s) || inside c s
where
  /-- After the character `c`. -/
  inside (c : Char) : List Char → Bool
    | [] => false
    | x :: s =>
      x == ':' && endsWord s || x == '#' && endsWord [c] || inside x s

/-- Two characters next to each other that satisfy `p` and `q`. -/
def hasPair (p q : Char → Bool) : List Char → Bool
  | a :: b :: s => p a && q b || hasPair p q (b :: s)
  | _ => false

def isMultiline (s : List Char) : Bool := s.any isBreak

def isSpace (c : Char) : Bool := c == ' '

/-- A space before a break, or a character that has to be escaped. -/
def needsEscape (s : List Char) : Bool :=
  s.any (!isPrintable ·) || hasPair isSpace isBreak s

def startsOrEnds (p : Char → Bool) (s : List Char) : Bool := s.head?.any p || s.getLast?.any p

def allowsPlain (s : List Char) : Bool :=
  !(needsEscape s || isMultiline s || startsOrEnds isSpace s || hasIndicator s)

def allowsSingleQuoted (s : List Char) : Bool := !(needsEscape s || hasPair isBreak isSpace s)

def allowsLiteral (s : List Char) : Bool :=
  !(s.isEmpty || needsEscape s || s.getLast?.any isSpace)

/-- The text would be read back as something other than a string. -/
def isAmbiguous (text : String) : Bool := Scalar.ofPlain text != .str ||
  Scalar.hasLeadingZero text.toList

def quoted (s : List Char) : Style := if allowsSingleQuoted s then singleQuoted else doubleQuoted

/-- The style of a string; `asKey` when it stands before a colon on its line. -/
def ofString (text : String) (asKey : Bool) : Style :=
  let s := text.toList
  if s.contains '\n' then if allowsLiteral s && !asKey then literal else doubleQuoted
  else if asKey && isMultiline s then doubleQuoted
  else if isAmbiguous text || !allowsPlain s then quoted s
  else plain

end Style

end ConfigTree.Yaml
