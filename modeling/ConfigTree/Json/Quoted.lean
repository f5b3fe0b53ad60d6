import ConfigTree.Json.Fault
import ConfigTree.Text.Digits

/-! JSON strings.  `quote` escapes what must be escaped and nothing else; `stringBody` reads any
spelling of a string after its opening quote. -/

namespace ConfigTree.Json

def hexDigit (n : Nat) : Char := Nat.digitChar n

def escape (c : Char) : List Char :=
  match c with
  | '"' => ['\\', '"']
  | '\\' => ['\\', '\\']
  | '\x08' => ['\\', 'b']
  | '\t' => ['\\', 't']
  | '\n' => ['\\', 'n']
  | '\x0c' => ['\\', 'f']
  | '\r' => ['\\', 'r']
  | c =>
    if c.toNat < 0x20 then
      ['\\', 'u', '0', '0', hexDigit (c.toNat / 16), hexDigit (c.toNat % 16)]
    else [c]

def quote (s : List Char) : List Char := '"' :: s.flatMap escape ++ ['"']

/-- What a letter after a backslash stands for. -/
def unescape? : Char → Option Char
  | '"' => some '"'
  | '\\' => some '\\'
  | '/' => some '/'
  | 'b' => some '\x08'
  | 'f' => some '\x0c'
  | 'n' => some '\n'
  | 'r' => some '\r'
  | 't' => some '\t'
  | _ => none

/-- What an unfinished escape still waits for. -/
inductive Pending
  | nothing
  | letter
  /-- Of four hexadecimal digits `count` are read and worth `value`, after the leading surrogate
  `high` if there is one. -/
  | digits (high : Option Nat) (count value : Nat)
  /-- The backslash of a trailing surrogate. -/
  | backslash (high : Nat)
  /-- The `u` of a trailing surrogate. -/
  | marker (high : Nat)
  deriving DecidableEq, Repr

def consChar (c : Char) (r : Result (List Char)) : Result (List Char) :=
  r.map fun (s, rest) => (c :: s, rest)

/-- Reads up to the closing quote. -/
def stringBody : Pending → List Char → Result (List Char)
  | _, [] => fail .eofString [] 0
  | .nothing, c :: s =>
    if c = '"' then .ok ([], s)
    else if c = '\\' then stringBody .letter s
    else if c.toNat < 0x20 then fail .controlCharacter (c :: s) 1
    else consChar c (stringBody .nothing s)
  | .letter, c :: s =>
    if c = 'u' then stringBody (.digits none 0 0) s
    else match unescape? c with
      | some e => consChar e (stringBody .nothing s)
      | none => fail .invalidEscape (c :: s) 1
  | .digits high count value, c :: s =>
    match Text.digit? 16 c with
    | none =>
      if byteLength (c :: s) < 4 - count then fail .eofString [] 0
      else fail .invalidEscape (c :: s) (4 - count)
    | some d =>
      let value := value * 16 + d
      if count < 3 then stringBody (.digits high (count + 1) value) s
      else
        let trailing := 0xDC00 ≤ value ∧ value ≤ 0xDFFF
        match high with
        | none =>
          if trailing then fail .loneSurrogate s 0
          else if 0xD800 ≤ value ∧ value ≤ 0xDBFF then stringBody (.backslash value) s
          else consChar (Char.ofNat value) (stringBody .nothing s)
        | some high =>
          if trailing then
            consChar (Char.ofNat ((high - 0xD800) * 0x400 + (value - 0xDC00) + 0x10000))
              (stringBody .nothing s)
          else fail .loneSurrogate s 0
  | .backslash high, c :: s =>
    if c = '\\' then stringBody (.marker high) s else fail .unpairedSurrogate (c :: s) 1
  | .marker high, c :: s =>
    if c = 'u' then stringBody (.digits (some high) 0 0) s
    else fail .unpairedSurrogate (c :: s) 1

/-- The content of a text that is one quoted string and nothing else. -/
def unquote? : List Char → Option (List Char)
  | '"' :: s => match stringBody .nothing s with
    | .ok (content, []) => some content
    | _ => none
  | _ => none

@[simp] theorem quote_nil : quote [] = ['"', '"'] := rfl

example : unquote? "\"a\\u00e9\\ud83d\\ude00\"".toList = some ['a', 'é', '😀'] := by
  decide +kernel

end ConfigTree.Json
