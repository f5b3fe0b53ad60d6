import ConfigTree.Json.Number
import ConfigTree.Json.Quoted

/-! Reading JSON text.  Values are read off the front of a text, each with what follows it.  At most
three calls pass between one character and the next, so the bound on the calls is never met; arrays
and objects may be nested 127 deep. -/

namespace ConfigTree.Json

def isBlank (c : Char) : Bool := c == ' ' || c == '\n' || c == '\t' || c == '\r'

def skipBlank (s : List Char) : List Char := s.dropWhile isBlank

/-- The remaining letters of a word such as `null`. -/
def word (v : Value) : List Char → List Char → Result Value
  | [], s => .ok (v, s)
  | _ :: _, [] => fail .eofValue [] 0
  | e :: es, c :: s => if c = e then word v es s else fail .expectedIdent (c :: s) 1

/-- The string after an opening quote. -/
def string (s : List Char) : Result String :=
  (stringBody .nothing s).map fun (content, rest) => (String.ofList content, rest)

/-- The key of a pair and the colon after it. -/
def key (s : List Char) : Result String :=
  (string s).bind fun (k, rest) =>
    match skipBlank rest with
    | ':' :: rest => .ok (k, rest)
    | [] => fail .eofObject [] 0
    | rest => fail .expectedColon rest 1

mutual

/-- A value; `levels` brackets may still be opened. -/
def value : Nat → Nat → List Char → Result Value
  | 0, _, s => fail .recursionLimit s 0
  | fuel + 1, levels, s =>
    match skipBlank s with
    | [] => fail .eofValue [] 0
    | c :: t =>
      match c with
      | 'n' => word .null ['u', 'l', 'l'] t
      | 't' => word (.bool true) ['r', 'u', 'e'] t
      | 'f' => word (.bool false) ['a', 'l', 's', 'e'] t
      | '"' => (string t).map fun (s, rest) => (.str s, rest)
      | '-' => number true t
      | '[' =>
        match levels with
        | 0 => fail .recursionLimit (c :: t) 1
        | levels + 1 => (items fuel levels t).map fun (vs, rest) => (.seq vs, rest)
      | '{' =>
        match levels with
        | 0 => fail .recursionLimit (c :: t) 1
        | levels + 1 => (pairs fuel levels t).map fun (ps, rest) => (.map ps, rest)
      | _ => if c.isDigit then number false (c :: t) else fail .expectedValue (c :: t) 1

/-- The items of an array after its opening bracket. -/
def items : Nat → Nat → List Char → Result (List Value)
  | 0, _, s => fail .recursionLimit s 0
  | fuel + 1, levels, s =>
    match skipBlank s with
    | [] => fail .eofList [] 0
    | ']' :: rest => .ok ([], rest)
    | s => item fuel levels s

/-- An item and those after it. -/
def item : Nat → Nat → List Char → Result (List Value)
  | 0, _, s => fail .recursionLimit s 0
  | fuel + 1, levels, s =>
    (value fuel levels s).bind fun (v, rest) =>
      match skipBlank rest with
      | [] => fail .eofList [] 0
      | ']' :: rest => .ok ([v], rest)
      | ',' :: rest =>
        match skipBlank rest with
        | [] => fail .eofValue [] 0
        | ']' :: rest => fail .trailingComma (']' :: rest) 1
        | rest => (item fuel levels rest).map fun (vs, rest) => (v :: vs, rest)
      | rest => fail .expectedListCommaOrEnd rest 1

/-- The pairs of an object after its opening brace. -/
def pairs : Nat → Nat → List Char → Result (List (String × Value))
  | 0, _, s => fail .recursionLimit s 0
  | fuel + 1, levels, s =>
    match skipBlank s with
    | [] => fail .eofObject [] 0
    | '}' :: rest => .ok ([], rest)
    | '"' :: rest => pair fuel levels rest
    | s => fail .keyMustBeString s 1

/-- A pair after the quote that opens its key, and the pairs after it. -/
def pair : Nat → Nat → List Char → Result (List (String × Value))
  | 0, _, s => fail .recursionLimit s 0
  | fuel + 1, levels, s =>
    (key s).bind fun (k, rest) => (value fuel levels rest).bind fun (v, rest) =>
      match skipBlank rest with
      | [] => fail .eofObject [] 0
      | '}' :: rest => .ok ([(k, v)], rest)
      | ',' :: rest =>
        match skipBlank rest with
        | '"' :: rest => (pair fuel levels rest).map fun (ps, rest) => ((k, v) :: ps, rest)
        | '}' :: rest => fail .trailingComma ('}' :: rest) 1
        | [] => fail .eofValue [] 0
        | rest => fail .keyMustBeString rest 1
      | rest => fail .expectedObjectCommaOrEnd rest 1

end

/-- Arrays and objects may be nested this deep. -/
def maxLevels : Nat := 127

/-- A text that holds one value and nothing else. -/
def readAll (text : List Char) : Except Fault Value :=
  (value (3 * text.length + 3) maxLevels text).bind fun (v, rest) =>
    match skipBlank rest with
    | [] => .ok v
    | rest => .error ⟨.trailingCharacters, rest, 1⟩

/-- The value of a JSON text, or what is wrong with it. -/
def read (text : String) : Except String Value :=
  let text := text.toList
  (readAll text).mapError (·.message text)

end ConfigTree.Json
