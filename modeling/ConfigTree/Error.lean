import ConfigTree.Kind

/-! Output formats, and the errors of reading, querying, editing and writing a document: each with
its text and the exit code it ends a run with. -/

namespace ConfigTree

inductive Format
  | text
  | config
  | json
  | compactJson
  | yaml
  | messagePack
  deriving DecidableEq, Repr, Inhabited

namespace Format

def name : Format → String
  | text => "text"
  | config => "config"
  | json => "json"
  | compactJson => "compact json"
  | yaml => "yaml"
  | messagePack => "msgpack"

/-- The format writes whole trees, not scalars for the shell. -/
def isStructured (f : Format) : Bool := f != text

end Format

/-- The operations that can fail at the document root. -/
inductive RootOperation
  | merge
  | remove
  deriving DecidableEq, Repr

def RootOperation.name : RootOperation → String
  | merge => "merge"
  | remove => "remove"

inductive Error
  /-- The text of a document is malformed. -/
  | parse (source message : String)
  | input (path cause : String)
  /-- Objects and arrays are nested beyond the limit. -/
  | tooDeep (limit : Nat)
  | missingArgument (argument : String)
  | noInput
  | invalidCommand (token : String)
  /-- A value was asked for in one kind and its text only yields another. -/
  | coercion (text : String) (wanted found : Kind)
  | unknownType (name : String)
  /-- A step before the last one of a path does not exist. -/
  | parentNotFound (path : String)
  | keyNotFound (path : String)
  /-- The parent is a scalar and cannot hold the last step of a path. -/
  | invalidParent (path : String) (kind : Kind)
  | invalidRoot (operation : RootOperation) (kind : Kind)
  | partialRemoval (count : Nat)
  | emit (format : Format) (message : String)
  | output (path cause : String)
  deriving DecidableEq, Repr

namespace Error

def message : Error → String
  | parse source message => "Parse error in " ++ source ++ ": " ++ message
  | input path cause => "Failed to read " ++ path ++ ": " ++ cause
  | tooDeep limit => "Document is nested too deeply (limit " ++ toString limit ++ ")"
  | missingArgument argument => "Missing argument: " ++ argument
  | noInput => "No input provided. Use --file or pipe a document to stdin."
  | invalidCommand token => "Invalid command " ++ token
  | coercion text wanted found =>
    "Unable to convert '" ++ text ++ "' to a " ++ wanted.name ++ ", only " ++ found.name
  | unknownType name => "Unknown type '" ++ name ++ "'"
  | parentNotFound path => "Failed to find parent of key " ++ path
  | keyNotFound path => "Failed to find key " ++ path
  | invalidParent path kind => "Invalid parent object type for '" ++ path ++ "': " ++ kind.name
  | invalidRoot operation kind =>
    "Cannot " ++ operation.name ++ " the document root with a " ++ kind.name
  | partialRemoval count => toString count ++ " of the requested removals failed"
  | emit format message => "Failed to serialize as " ++ format.name ++ ": " ++ message
  | output path cause => "Failed to write " ++ path ++ ": " ++ cause

def exitCode : Error → UInt8
  | parse .. | input .. => 2
  | tooDeep _ => 3
  | missingArgument _ | noInput | unknownType _ => 4
  | invalidCommand _ => 5
  | coercion .. => 6
  | parentNotFound _ | keyNotFound _ | invalidParent .. | invalidRoot .. | partialRemoval _
  | emit .. => 1
  | output .. => 7

/-- A failed write to standard output. -/
def standardOutput (cause : String) : Error := .output "<stdout>" cause

/-- Success is 0, and no error ends a run with it. -/
theorem exitCode_ne_zero (e : Error) : e.exitCode ≠ 0 := by cases e <;> simp [exitCode]

end Error

end ConfigTree
