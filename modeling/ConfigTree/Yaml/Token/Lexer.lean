import ConfigTree.Yaml.Token.Block
import ConfigTree.Yaml.Token.Plain
import ConfigTree.Yaml.Token.Property
import ConfigTree.Yaml.Token.Quoted

/-! The tokens of a text.  Outside brackets the column of a line decides which block collections
start and end; a scalar, collection or property becomes a key once a colon follows it on its line,
and its key token is then put in front of the tokens it stands for. -/

namespace ConfigTree.Yaml

/-- A place that becomes a key if a colon follows. -/
structure Candidate where
  /-- Nothing else may stand here. -/
  required : Bool
  /-- The number of the token that starts it. -/
  token : Nat
  index : Nat
  mark : Mark

structure Lexer where
  cursor : Cursor
  tokens : Array MarkedToken
  /-- The column of the innermost block collection, or -1. -/
  indent : Int
  /-- The columns around it. -/
  outer : List Int
  /-- A key may start here. -/
  keyAllowed : Bool
  /-- The candidate outside brackets, or within the innermost ones. -/
  candidate : Option Candidate
  /-- The candidates around open brackets. -/
  enclosing : List (Option Candidate)

namespace Lexer

def start (text : List Char) : Lexer := ⟨.start text, #[], -1, [], true, none, []⟩

def inFlow (l : Lexer) : Bool := !l.enclosing.isEmpty

def fail {α : Type} (l : Lexer) (problem : Problem) : Except Fault α := l.cursor.fail problem

def push (l : Lexer) (token : Token) : Lexer :=
  { l with tokens := l.tokens.push ⟨token, l.cursor.mark⟩ }

/-- Puts a token in front of the one with the given number, or at the end. -/
def insert (l : Lexer) (number : Nat) (token : Token) (mark : Mark) : Lexer :=
  { l with tokens := l.tokens.insertIdxIfInBounds number ⟨token, mark⟩ }

/-- Passes an indicator of `n` characters, which is a token. -/
def indicator (l : Lexer) (n : Nat) (token : Token) : Lexer :=
  { l.push token with cursor := l.cursor.skip n }

/-- A candidate has to be followed by its colon within 1024 characters of its line. -/
def checkCandidate (c : Cursor) : Option Candidate → Except Fault (Option Candidate)
  | none => .ok none
  | some k =>
    if k.mark.line < c.line ∨ k.index + 1024 < c.index then
      if k.required then c.fail .missingColon else .ok none
    else .ok (some k)

def dropStale (l : Lexer) : Except Fault Lexer := do
  let candidate ← checkCandidate l.cursor l.candidate
  let enclosing ← l.enclosing.mapM (checkCandidate l.cursor)
  .ok { l with candidate, enclosing }

def removeCandidate (l : Lexer) : Except Fault Lexer :=
  if l.candidate.any (·.required) then l.fail .missingColon else .ok { l with candidate := none }

/-- What comes next may become a key. -/
def saveCandidate (l : Lexer) : Except Fault Lexer :=
  if l.keyAllowed then do
    let required := !l.inFlow && l.indent == l.cursor.column
    let l ← l.removeCandidate
    .ok { l with candidate := some ⟨required, l.tokens.size, l.cursor.index, l.cursor.mark⟩ }
  else .ok l

/-- Starts a block collection at a column beyond the current one. -/
def roll (l : Lexer) (column number : Nat) (token : Token) (mark : Mark) : Lexer :=
  if !l.inFlow && l.indent < column then
    { l.insert number token mark with indent := column, outer := l.indent :: l.outer }
  else l

/-- Ends the block collections beyond a column; `outer` holds the columns around them. -/
def unrollTo (column : Int) : List Int → Lexer → Lexer
  | [], l => l
  | i :: outer, l =>
    if column < l.indent then unrollTo column outer { l.push .blockEnd with indent := i, outer }
    else l

def unroll (l : Lexer) (column : Int) : Lexer :=
  if l.inFlow then l else unrollTo column l.outer l

/-- Passes blanks, comments and breaks.  A tab may only stand where no key may start. -/
def skipSpace : Nat → Lexer → Lexer
  | 0, l => l
  | fuel + 1, l =>
    let c := if l.cursor.index = 0 ∧ l.cursor.rest.head? = some '\uFEFF' then l.cursor.skip 1
      else l.cursor
    let c := c.skipWhile fun x => x == ' ' || x == '\t' && (l.inFlow || !l.keyAllowed)
    let c := if c.rest.head? = some '#' then c.skipWhile (!isBreak ·) else c
    if c.rest.isEmpty || !endsLine c.rest then { l with cursor := c }
    else skipSpace fuel { l with cursor := c.readBreak.2, keyAllowed := l.keyAllowed || !l.inFlow }

def streamEnd (l : Lexer) : Except Fault Lexer := do
  let l ← (l.unroll (-1)).removeCandidate
  .ok (l.push .streamEnd)

def documentMark (l : Lexer) (token : Token) : Except Fault Lexer := do
  let l ← (l.unroll (-1)).removeCandidate
  .ok { l.indicator 3 token with keyAllowed := false }

def directive (l : Lexer) : Except Fault Lexer := do
  let l ← (l.unroll (-1)).removeCandidate
  let (token, cursor) ← Property.directive l.cursor
  .ok { l.push token with cursor, keyAllowed := false }

def flowStart (l : Lexer) (token : Token) : Except Fault Lexer := do
  let l ← l.saveCandidate
  .ok { l.indicator 1 token with
    candidate := none, enclosing := l.candidate :: l.enclosing, keyAllowed := true }

def flowEnd (l : Lexer) (token : Token) : Except Fault Lexer := do
  let l ← l.removeCandidate
  let l := match l.enclosing with
    | [] => l
    | k :: enclosing => { l with candidate := k, enclosing }
  .ok { l.indicator 1 token with keyAllowed := false }

def flowEntry (l : Lexer) : Except Fault Lexer := do
  let l ← l.removeCandidate
  .ok { l.indicator 1 .flowEntry with keyAllowed := true }

def blockEntry (l : Lexer) : Except Fault Lexer := do
  if !l.inFlow && !l.keyAllowed then l.fail .unexpectedEntry
  else
    let l := l.roll l.cursor.column l.tokens.size .blockSequenceStart l.cursor.mark
    let l ← l.removeCandidate
    .ok { l.indicator 1 .blockEntry with keyAllowed := true }

def key (l : Lexer) : Except Fault Lexer := do
  if !l.inFlow && !l.keyAllowed then l.fail .unexpectedKey
  else
    let l := l.roll l.cursor.column l.tokens.size .blockMappingStart l.cursor.mark
    let l ← l.removeCandidate
    .ok { l.indicator 1 .key with keyAllowed := !l.inFlow }

def value (l : Lexer) : Except Fault Lexer :=
  match l.candidate with
  | some k =>
    let l := l.insert k.token .key k.mark
    let l := l.roll k.mark.column k.token .blockMappingStart k.mark
    .ok { l.indicator 1 .value with candidate := none, keyAllowed := false }
  | none =>
    if !l.inFlow && !l.keyAllowed then l.fail .unexpectedValue
    else
      let l := l.roll l.cursor.column l.tokens.size .blockMappingStart l.cursor.mark
      .ok { l.indicator 1 .value with keyAllowed := !l.inFlow }

/-- A token that may be a key, read from its first character. -/
def property (l : Lexer) (read : Cursor → Except Fault (Token × Cursor)) : Except Fault Lexer := do
  let l ← l.saveCandidate
  let (token, cursor) ← read l.cursor
  .ok { l.push token with cursor, keyAllowed := false }

def blockScalar (l : Lexer) (literal : Bool) : Except Fault Lexer := do
  let l ← l.removeCandidate
  let (text, cursor) ← Block.read literal l.indent l.cursor
  .ok { l.push (.scalar false text) with cursor, keyAllowed := true }

def quotedScalar (l : Lexer) (quote : Quoted.Quote) : Except Fault Lexer :=
  l.property fun c => (Quoted.read quote c).map fun (text, c) => (.scalar false text, c)

def plainScalar (l : Lexer) : Except Fault Lexer := do
  let l ← l.saveCandidate
  let (text, broken, cursor) ← Plain.read l.inFlow (l.indent + 1).toNat l.cursor
  .ok { l.push (.scalar true text) with cursor, keyAllowed := broken }

/-- Characters that start a plain scalar only where no word ends after them, if at all. -/
def isIndicator (c : Char) : Bool := "-?:,[]\x7b\x7d#&*!|>'\"%@`".toList.contains c

/-- The token that starts with `x`, which `s` follows. -/
def token (l : Lexer) (x : Char) (s : List Char) : Except Fault Lexer :=
  if l.cursor.column == 0 && x == '%' then l.directive
  else if l.cursor.atDocumentMark then
    l.documentMark (if x = '-' then .documentStart else .documentEnd)
  else match x with
    | '[' => l.flowStart .flowSequenceStart
    | '{' => l.flowStart .flowMappingStart
    | ']' => l.flowEnd .flowSequenceEnd
    | '}' => l.flowEnd .flowMappingEnd
    | ',' => l.flowEntry
    | '*' => l.property fun c => (Property.name c).map fun (name, c) => (.reference name, c)
    | '&' => l.property fun c => (Property.name c).map fun (name, c) => (.anchor name, c)
    | '!' => l.property (Property.tag l.inFlow)
    | '\'' => l.quotedScalar .single
    | '"' => l.quotedScalar .double
    | _ =>
      if x == '-' && endsWord s then l.blockEntry
      else if x == '?' && (l.inFlow || endsWord s) then l.key
      else if x == ':' && (l.inFlow || endsWord s) then l.value
      else if x == '|' && !l.inFlow then l.blockScalar true
      else if x == '>' && !l.inFlow then l.blockScalar false
      else if x == '-' || (!l.inFlow && (x == '?' || x == ':')) || !isIndicator x && !isBlank x then
        l.plainScalar
      else l.fail .unexpectedCharacter

/-- Reads tokens up to the end of the text. -/
def run : Nat → Lexer → Except Fault Lexer
  | 0, l => .ok l
  | fuel + 1, l => do
    let l ← (skipSpace (fuel + 1) l).dropStale
    let l := l.unroll l.cursor.column
    match l.cursor.rest with
    | [] => l.streamEnd
    | x :: s => do
      let l ← l.token x s
      run fuel l

end Lexer

/-- Characters that may not stand in a text at all. -/
def isForbidden (c : Char) : Bool :=
  let n := c.toNat
  !(n == 0x9 || n == 0xA || n == 0xD || (0x20 ≤ n && n ≤ 0x7E) || n == 0x85 ||
    (0xA0 ≤ n && n ≤ 0xD7FF) || (0xE000 ≤ n && n ≤ 0xFFFD) || 0x10000 ≤ n)

def Token.scan (text : List Char) : Except Fault (List MarkedToken) :=
  if text.any isForbidden then .error ⟨.controlCharacter, ⟨0, 0⟩⟩
  else
    let text := match text with
      | '\uFEFF' :: s => s
      | _ => text
    (Lexer.run (text.length + 1) (.start text)).map (·.tokens.toList)

end ConfigTree.Yaml
