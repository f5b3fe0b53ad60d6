import ConfigTree.Error
import ConfigTree.Text.Digits

/-! The arguments after the name of a command.  Words that start with a dash are options, by their
long name or as a cluster of letters, up to a word `--`; a single dash is no option.  An option
has its value behind an equals sign, or in the next word, or behind its letter. -/

namespace ConfigTree.CommandLine

inductive Verb
  | get
  | set
  | merge
  | remove
  | dump
  deriving DecidableEq, Repr

namespace Verb

def ofName? : String → Option Verb
  | "get" => some get
  | "set" => some set
  | "merge" => some merge
  | "remove" => some remove
  | "dump" => some dump
  | _ => none

/-- The document is written back. -/
def isEdit : Verb → Bool
  | set | merge | remove => true
  | get | dump => false

/-- How many operands there may be, if that is limited. -/
def operandLimit? : Verb → Option Nat
  | get | remove => none
  | set | merge => some 2
  | dump => some 0

end Verb

/-- An option without a value. -/
inductive Switch
  | format (format : Format)
  | expand
  | foldCase
  | keys
  | shellVariables
  | noNewline
  | noQuotes
  | noop
  deriving DecidableEq, Repr

/-- An option with a value. -/
inductive Setting
  | debug
  | delimiter
  | file
  | maxDepth
  | kind
  | input
  | output
  deriving DecidableEq, Repr

inductive Flag
  | switch (s : Switch)
  | setting (s : Setting)
  | help
  deriving DecidableEq, Repr

namespace Flag

/-- Some options belong to the commands that edit. -/
def isFor (verb : Verb) : Flag → Bool
  | switch .noop | setting .input | setting .output => verb.isEdit
  | setting .kind => verb == .set
  | _ => true

def ofLong? : String → Option Flag
  | "cjson" => some (switch (.format .compactJson))
  | "json" => some (switch (.format .json))
  | "ucl" => some (switch (.format .config))
  | "yaml" => some (switch (.format .yaml))
  | "msgpack" => some (switch (.format .messagePack))
  | "expand" => some (switch .expand)
  | "foldcase" => some (switch .foldCase)
  | "keys" => some (switch .keys)
  | "shellvars" => some (switch .shellVariables)
  | "nonewline" => some (switch .noNewline)
  | "noquotes" => some (switch .noQuotes)
  | "noop" => some (switch .noop)
  | "debug" => some (setting .debug)
  | "delimiter" => some (setting .delimiter)
  | "file" => some (setting .file)
  | "max-depth" => some (setting .maxDepth)
  | "type" => some (setting .kind)
  | "input" => some (setting .input)
  | "output" => some (setting .output)
  | "help" => some help
  | _ => none

def ofShort? : Char → Option Flag
  | 'c' => some (switch (.format .compactJson))
  | 'j' => some (switch (.format .json))
  | 'u' => some (switch (.format .config))
  | 'y' => some (switch (.format .yaml))
  | 'm' => some (switch (.format .messagePack))
  | 'e' => some (switch .expand)
  | 'I' => some (switch .foldCase)
  | 'k' => some (switch .keys)
  | 'l' => some (switch .shellVariables)
  | 'N' => some (switch .noNewline)
  | 'q' => some (switch .noQuotes)
  | 'n' => some (switch .noop)
  | 'd' => some (setting .debug)
  | 'D' => some (setting .delimiter)
  | 'f' => some (setting .file)
  | 't' => some (setting .kind)
  | 'i' => some (setting .input)
  | 'o' => some (setting .output)
  | 'h' => some help
  | _ => none

end Flag

/-- A word that stands for an option, or for several. -/
def isOption (word : String) : Bool := word != "-" && word.toList.head? == some '-'

/-- One piece of the arguments.  Nothing after a call for help or a misused word is read. -/
inductive Token
  | switch (s : Switch)
  | setting (s : Setting) (value : String)
  | operand (text : String)
  | help
  | misused (word : String)
  deriving DecidableEq, Repr

/-- The value of a debug level that is not given. -/
def defaultDebug : String := "1"

/-- A cluster of letters in `word`, and the option that still needs a value. -/
def cluster (verb : Verb) (word : String) : List Char → List Token × Option Setting
  | [] => ([], none)
  | c :: s =>
    match (Flag.ofShort? c).filter (Flag.isFor verb) with
    | none => ([.misused word], none)
    | some .help => ([.help], none)
    | some (.switch w) =>
      let (tokens, waiting) := cluster verb word s
      (.switch w :: tokens, waiting)
    | some (.setting w) =>
      match s with
      | '=' :: value => ([.setting w (String.ofList value)], none)
      | [] => if w = .debug then ([.setting w defaultDebug], none) else ([], some w)
      | _ :: _ =>
        if w = .debug then
          let (tokens, waiting) := cluster verb word s
          (.setting w defaultDebug :: tokens, waiting)
        else ([.setting w (String.ofList s)], none)

/-- A long option in `word`, and the option that still needs a value. -/
def long (verb : Verb) (word : String) (text : List Char) : List Token × Option Setting :=
  let name := text.takeWhile (· != '=')
  let value := (text.dropWhile (· != '=')).tail?.map String.ofList
  match (Flag.ofLong? (String.ofList name)).filter (Flag.isFor verb), value with
  | some .help, none => ([.help], none)
  | some (.switch w), none => ([.switch w], none)
  | some (.setting w), some value => ([.setting w value], none)
  | some (.setting w), none =>
    if w = .debug then ([.setting w defaultDebug], none) else ([], some w)
  | _, _ => ([.misused word], none)

/-- The tokens of the words; `waiting` is an option that needs the next word as its value. -/
def tokens (verb : Verb) (waiting : Option Setting) : List String → List Token
  | [] => if waiting.isSome then [.misused ""] else []
  | word :: words =>
    match waiting with
    | some w =>
      if isOption word then [.misused word] else .setting w word :: tokens verb none words
    | none =>
      match word.toList with
      | ['-', '-'] => words.map .operand
      | '-' :: '-' :: text =>
        let (ts, waiting) := long verb word text
        ts ++ tokens verb waiting words
      | '-' :: c :: text =>
        let (ts, waiting) := cluster verb word (c :: text)
        ts ++ tokens verb waiting words
      | _ => .operand word :: tokens verb none words

/-- Why no command is run. -/
inductive Stop
  | help
  | version
  /-- A word is unknown, repeated, or lacks a proper value. -/
  | misuse (word : String)
  deriving DecidableEq, Repr

def character? (value : String) : Option Char :=
  match value.toList with
  | [c] => some c
  | _ => none

def depth? (value : String) : Option Nat := Text.unsigned? 64 10 value.toList

namespace Setting

def accepts (value : String) : Setting → Bool
  | debug => ((Text.signed? 64 10 value.toList).filter fun n => 0 ≤ n ∧ n < 256).isSome
  | delimiter => (character? value).isSome
  | maxDepth => (depth? value).isSome
  | file | input | output => !value.isEmpty
  | kind => true

end Setting

structure Arguments where
  switches : List Switch
  settings : List (Setting × String)
  operands : List String
  deriving DecidableEq, Repr

namespace Arguments

def empty : Arguments := ⟨[], [], []⟩

def has (a : Arguments) (s : Switch) : Bool := a.switches.contains s

def setting? (a : Arguments) (s : Setting) : Option String := a.settings.lookup s

def formats (a : Arguments) : List Format :=
  a.switches.filterMap fun
    | .format f => some f
    | _ => none

def format? (a : Arguments) : Option Format := a.formats.head?

/-- Takes in one more token. -/
def add (verb : Verb) (a : Arguments) : Token → Except Stop Arguments
  | .switch s =>
    if a.has s then .error (.misuse "") else .ok { a with switches := a.switches ++ [s] }
  | .setting s value =>
    if (a.setting? s).isSome || !s.accepts value then .error (.misuse value)
    else .ok { a with settings := a.settings ++ [(s, value)] }
  | .operand text =>
    if verb.operandLimit?.any (· ≤ a.operands.length) then .error (.misuse text)
    else .ok { a with operands := a.operands ++ [text] }
  | .help => .error .help
  | .misused word => .error (.misuse word)

/-- Of the formats one at most is asked for. -/
def check (a : Arguments) : Except Stop Arguments :=
  if 1 < a.formats.length then .error (.misuse "") else .ok a

/-- What is wrong with one word, and a call for help, comes before what is wrong with them all. -/
def parse (verb : Verb) (words : List String) : Except Stop Arguments :=
  ((tokens verb none words).foldlM (add verb) empty).bind check

end Arguments

end ConfigTree.CommandLine
