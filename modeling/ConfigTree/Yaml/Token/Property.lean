import ConfigTree.Text.Digits
import ConfigTree.Yaml.Cursor
import ConfigTree.Yaml.Token.Basic

/-! Anchors, aliases, tags and directives. -/

namespace ConfigTree.Yaml

namespace Property

def mayFollowName (c : Char) : Bool := "?:,]\x7d%@`".toList.contains c

/-- The name of an anchor or alias, from its indicator. -/
def name (c : Cursor) : Except Fault (String × Cursor) :=
  let name := (c.rest.drop 1).takeWhile isNameChar
  let c := c.skip (1 + name.length)
  if name.isEmpty || !(endsWord c.rest || c.rest.head?.any mayFollowName) then c.fail .invalidAnchor
  else .ok (String.ofList name, c)

def isTagChar (c : Char) : Bool :=
  isNameChar c || ";/?:@&=+$.!~*'()".toList.contains c

/-- Characters that are only allowed in a tag given in full. -/
def isFullTagChar (c : Char) : Bool := c == ',' || c == '[' || c == ']'

/-- Octets of a character that starts with `octet`. -/
def octetCount? (octet : Nat) : Option Nat :=
  if octet < 0x80 then some 1
  else if octet / 0x20 = 6 then some 2
  else if octet / 0x10 = 14 then some 3
  else if octet / 0x8 = 30 then some 4
  else none

/-- Reads an escaped octet. -/
def octet? : List Char → Option (Nat × List Char)
  | '%' :: a :: b :: s => do
    let a ← Text.digit? 16 a
    let b ← Text.digit? 16 b
    some (a * 16 + b, s)
  | _ => none

/-- Reads the further octets of a character. -/
def trailingOctets? : Nat → List Char → Option (TagText × List Char)
  | 0, s => some ([], s)
  | n + 1, s => do
    let (o, s) ← octet? s
    if o / 0x40 = 2 then
      let (os, s) ← trailingOctets? n s
      some (UInt8.ofNat o :: os, s)
    else none

def escaped? (s : List Char) : Option (TagText × List Char) := do
  let (o, s) ← octet? s
  let n ← octetCount? o
  let (os, s) ← trailingOctets? (n - 1) s
  some (UInt8.ofNat o :: os, s)

/-- Characters of a tag, as octets. -/
def tagText (full : Bool) : Nat → Cursor → Except Fault (TagText × Cursor)
  | 0, c => .ok ([], c)
  | fuel + 1, c =>
    match c.rest with
    | '%' :: _ => match escaped? c.rest with
      | some (os, rest) => do
        let (more, c) ← tagText full fuel (c.skip (c.rest.length - rest.length))
        .ok (os ++ more, c)
      | none => c.fail .invalidTag
    | x :: _ =>
      if isTagChar x || full && isFullTagChar x then do
        let (more, c) ← tagText full fuel (c.skip 1)
        .ok (UInt8.ofNat x.toNat :: more, c)
      else .ok ([], c)
    | [] => .ok ([], c)

def readTagText (full : Bool) (c : Cursor) : Except Fault (TagText × Cursor) :=
  tagText full c.rest.length c

/-- A tag from its indicator: `!<…>` gives it in full, `!name!…` after a handle, and any other after
the handle `!`.  An indicator alone is a tag of its own. -/
def tag (inFlow : Bool) (c : Cursor) : Except Fault (Token × Cursor) := do
  let (token, c) ← match c.rest.drop 1 with
    | '<' :: _ => do
      let (text, c) ← readTagText true (c.skip 2)
      if text.isEmpty || c.rest.head? != some '>' then c.fail .invalidTag
      else .ok (Token.tag "" text, c.skip 1)
    | s =>
      let name := s.takeWhile isNameChar
      if (s.drop name.length).head? = some '!' then do
        let (text, c) ← readTagText false (c.skip (name.length + 2))
        if text.isEmpty then c.fail .invalidTag
        else .ok (Token.tag (String.ofList ('!' :: name ++ ['!'])) text, c)
      else do
        let (text, c) ← readTagText false (c.skip 1)
        .ok (if text.isEmpty then Token.tag "" [33] else Token.tag "!" text, c)
  if endsWord c.rest || inFlow && c.rest.head? == some ',' then .ok (token, c)
  else c.fail .invalidTag

/-- A version number has at most nine digits. -/
def versionNumber (c : Cursor) : Except Fault (Nat × Cursor) :=
  let digits := c.rest.takeWhile Char.isDigit
  match Text.natural? 10 digits with
  | some n => if digits.length ≤ 9 then .ok (n, c.skip digits.length) else c.fail .invalidDirective
  | none => c.fail .invalidDirective

def version (c : Cursor) : Except Fault (Token × Cursor) := do
  let (major, c) ← versionNumber (c.skipWhile isBlank)
  if c.rest.head? != some '.' then c.fail .invalidDirective
  else
    let (minor, c) ← versionNumber (c.skip 1)
    .ok (.version major minor, c)

def handle (c : Cursor) : Except Fault (Token × Cursor) := do
  let c := c.skipWhile isBlank
  let name := (c.rest.drop 1).takeWhile isNameChar
  let closed := (c.rest.drop (1 + name.length)).head? = some '!'
  if c.rest.head? != some '!' || !closed && !name.isEmpty then c.fail .invalidDirective
  else
    let name := '!' :: name ++ if closed then ['!'] else []
    let c := c.skip name.length
    if !c.rest.head?.any isBlank then c.fail .invalidDirective
    else
      let (start, c) ← readTagText true (c.skipWhile isBlank)
      if start.isEmpty || !endsWord c.rest then c.fail .invalidDirective
      else .ok (.handle (String.ofList name) start, c)

/-- A directive from its indicator to the end of its line. -/
def directive (c : Cursor) : Except Fault (Token × Cursor) := do
  let name := (c.rest.drop 1).takeWhile isNameChar
  let c := c.skip (1 + name.length)
  if !endsWord c.rest then c.fail .invalidDirective
  else
    let (token, c) ← match String.ofList name with
      | "YAML" => version c
      | "TAG" => handle c
      | _ => c.fail .invalidDirective
    let c := c.skipComment
    if endsLine c.rest then .ok (token, c.readBreak.2) else c.fail .invalidDirective

end Property

end ConfigTree.Yaml
