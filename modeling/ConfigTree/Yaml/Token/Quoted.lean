import ConfigTree.Text.Digits
import ConfigTree.Yaml.Token.Gap

/-! Quoted scalars.  Between single quotes only a quote is written twice; between double quotes a
backslash escapes characters, code points and breaks. -/

namespace ConfigTree.Yaml.Quoted

inductive Quote
  | single
  | double
  deriving DecidableEq, Repr

def Quote.char : Quote → Char
  | single => '\''
  | double => '"'

/-- What a letter after a backslash stands for. -/
def unescape? : Char → Option Char
  | '0' => some '\x00'
  | 'a' => some '\x07'
  | 'b' => some '\x08'
  | 't' | '\t' => some '\t'
  | 'n' => some '\n'
  | 'v' => some '\x0b'
  | 'f' => some '\x0c'
  | 'r' => some '\r'
  | 'e' => some '\x1b'
  | ' ' => some ' '
  | '"' => some '"'
  | '/' => some '/'
  | '\\' => some '\\'
  | 'N' => some '\x85'
  | '_' => some '\xa0'
  | 'L' => some '\u2028'
  | 'P' => some '\u2029'
  | _ => none

/-- How many hexadecimal digits follow a letter after a backslash. -/
def codeLength? : Char → Option Nat
  | 'x' => some 2
  | 'u' => some 4
  | 'U' => some 8
  | _ => none

def codePoint? (digits : List Char) (length : Nat) : Option Char :=
  if digits.length = length then
    (Text.natural? 16 digits).bind fun n =>
      if h : n.isValidChar then some (Char.ofNatAux n h) else none
  else none

/-- The characters up to a blank, a break, the closing quote or an escaped break. -/
def word (quote : Quote) : Nat → Cursor → Except Fault (List Char × Cursor)
  | 0, c => .ok ([], c)
  | fuel + 1, c =>
    match quote, c.rest with
    | _, [] => .ok ([], c)
    | .single, '\'' :: '\'' :: _ => do
      let (w, c) ← word quote fuel (c.skip 2)
      .ok ('\'' :: w, c)
    | .double, '\\' :: x :: s =>
      if isBreak x then .ok ([], c)
      else match codeLength? x with
        | some n => match codePoint? (s.take n) n with
          | some e => do
            let (w, c) ← word quote fuel (c.skip (2 + n))
            .ok (e :: w, c)
          | none => c.fail .invalidEscape
        | none => match unescape? x with
          | some e => do
            let (w, c) ← word quote fuel (c.skip 2)
            .ok (e :: w, c)
          | none => c.fail .invalidEscape
    | .double, ['\\'] => c.fail .invalidEscape
    | _, x :: _ =>
      if isBlank x || isBreak x || x == quote.char then .ok ([], c)
      else do
        let (w, c) ← word quote fuel (c.skip 1)
        .ok (x :: w, c)

/-- Reads on after `text`, up to and including the closing quote. -/
def readFrom (quote : Quote) : Nat → List Char → Cursor → Except Fault (List Char × Cursor)
  | 0, _, c => c.fail .unexpectedEnd
  | fuel + 1, text, c => do
    if c.atDocumentMark then c.fail .unexpectedDocumentMark
    else if c.rest.isEmpty then c.fail .unexpectedEnd
    else
      let (w, c) ← word quote (fuel + 1) c
      let text := text ++ w
      if c.rest.head? == some quote.char then .ok (text, c.skip 1)
      else
        let (gap, c) :=
          if c.rest.head? == some '\\' then (Gap.escaped, (c.skip 1).readBreak.2) else (Gap.none, c)
        let (gap, c) ← gap.read 0 (fuel + 1) c
        readFrom quote fuel (text ++ gap.text) c

/-- A quoted scalar, from its opening quote. -/
def read (quote : Quote) (c : Cursor) : Except Fault (String × Cursor) := do
  let (text, c) ← readFrom quote (c.rest.length + 1) [] (c.skip 1)
  .ok (String.ofList text, c)

end ConfigTree.Yaml.Quoted
