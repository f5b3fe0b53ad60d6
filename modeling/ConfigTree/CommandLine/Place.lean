import ConfigTree.Error

/-! Where a run takes a value from and where it writes the document. -/

namespace ConfigTree.CommandLine

/-- The path `-`, which stands for standard input.  Separators and dots after it do not count. -/
def isDash (path : String) : Bool :=
  match path.toList.splitOn '/' with
  | ['-'] :: rest => rest.all fun part => part == [] || part == ['.']
  | _ => false

/-- A document without a path is read from standard input as well. -/
def isStandardInput (path : Option String) : Bool := path.all isDash

/-- Where a value comes from. -/
inductive Source
  | inline (text : String)
  | file (path : String)
  | standardInput
  deriving DecidableEq, Repr

namespace Source

/-- A path given for the value wins over a value given inline. -/
def select : Option String → Option String → Source
  | some path, _ => if isDash path then standardInput else file path
  | none, some text => inline text
  | none, none => standardInput

/-- Standard input holds the document or the value, not both. -/
def conflict? (source : Source) (documentOnInput : Bool) : Option Error :=
  if source = standardInput ∧ documentOnInput then
    some (.missingArgument "value (standard input already holds the document)")
  else none

end Source

/-- The text without one line break at its end. -/
def dropLineBreak (text : String) : String :=
  match text.toList.reverse with
  | '\n' :: '\r' :: rest | '\n' :: rest => String.ofList rest.reverse
  | _ => text

/-- Where and how an edited document is written. -/
structure Destination where
  /-- The document was read from here. -/
  document : Option String
  /-- It is written here, not back to where it was read. -/
  output : Option String
  format : Option Format
  /-- It is only printed. -/
  noop : Bool
  deriving DecidableEq, Repr

namespace Destination

/-- The file to replace; `none` is standard output. -/
def target? (d : Destination) : Option String :=
  if d.noop then none else d.output <|> d.document.filter (!isDash ·)

end Destination

end ConfigTree.CommandLine
