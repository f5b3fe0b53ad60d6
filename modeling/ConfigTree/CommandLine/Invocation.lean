import ConfigTree.CommandLine.Arguments
import ConfigTree.CommandLine.Place
import ConfigTree.Query.Options

/-! What a run is asked to do. -/

namespace ConfigTree.CommandLine

inductive Action
  | get (requests : List String)
  | set (kind path value : Option String)
  | merge (path value : Option String)
  | remove (paths : List String)
  | dump
  deriving DecidableEq, Repr

structure Invocation where
  action : Action
  reading : ReadOptions
  query : Query.Options
  /-- The file a value is read from. -/
  input : Option String
  destination : Destination
  deriving DecidableEq, Repr

namespace Invocation

def delimiter (i : Invocation) : Char := i.query.inputDelimiter

def documentOnInput (i : Invocation) : Bool := isStandardInput i.destination.document

def actionOf (a : Arguments) : Verb → Action
  | .get => .get a.operands
  | .set => .set (a.setting? .kind) a.operands[0]? a.operands[1]?
  | .merge => .merge a.operands[0]? a.operands[1]?
  | .remove => .remove a.operands
  | .dump => .dump

def ofArguments (verb : Verb) (a : Arguments) : Invocation :=
  let delimiter := ((a.setting? .delimiter).bind character?).getD '.'
  let maxDepth := ((a.setting? .maxDepth).bind depth?).getD defaultMaxDepth
  { action := actionOf a verb
    reading := { foldCase := a.has .foldCase, keepRepeats := true, maxDepth }
    query :=
      { inputDelimiter := delimiter
        outputDelimiter := if a.has .shellVariables then '_' else delimiter
        format := a.format?.getD .text
        showKeys := a.has .keys
        raw := a.has .noQuotes
        noNewline := a.has .noNewline
        expand := a.has .expand
        maxDepth }
    input := a.setting? .input
    destination :=
      { document := a.setting? .file
        output := a.setting? .output
        format := a.format?
        noop := a.has .noop } }

/-- What there is help on. -/
def isTopic (word : String) : Bool := word = "help" ∨ (Verb.ofName? word).isSome

/-- What becomes of a first word that is no command. -/
def withoutVerb (word : String) (words : List String) : Stop :=
  match word.toList with
  | '-' :: 'V' :: _ => .version
  | '-' :: 'h' :: _ => .help
  | _ =>
    if word = "--version" then .version
    else if word = "--help" then .help
    else if word = "help" ∧ words.length ≤ 1 ∧ words.all isTopic then .help
    else .misuse word

def parse : List String → Except Stop Invocation
  | [] => .error (.misuse "")
  | word :: words =>
    match Verb.ofName? word with
    | some verb => (Arguments.parse verb words).map (ofArguments verb)
    | none => .error (withoutVerb word words)

end Invocation

end ConfigTree.CommandLine
