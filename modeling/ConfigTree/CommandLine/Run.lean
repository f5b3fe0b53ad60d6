import ConfigTree.CommandLine.Invocation
import ConfigTree.Edit.Document
import ConfigTree.Query.Output

/-! Running an invocation on a host, which reads and writes for it.  What a host cannot do it
answers with the cause, in words.  An edited document is written once, after everything else went
well. -/

namespace ConfigTree.CommandLine

structure Host (m : Type → Type) where
  /-- Standard input is a terminal. -/
  isInteractive : m Bool
  input : m (Except String String)
  file (path : String) : m (Except String String)
  replace (path : String) (bytes : List UInt8) : m (Except String Unit)
  print (bytes : List UInt8) : m (Except String Unit)
  /-- A line for the user, beside the output. -/
  complain (line : String) : m Unit

namespace Host

variable {m : Type → Type} [Monad m] (host : Host m)

/-- An act of the host whose failure becomes an error. -/
def act {α : Type} (answer : m (Except String α)) (error : String → Error) : ExceptT Error m α :=
  ExceptT.mk do return (← answer).mapError error

def inputName : String := "<stdin>"

def inputText : ExceptT Error m String := act host.input (.input inputName)

def fileText (path : String) : ExceptT Error m String := act (host.file path) (.input path)

def put (bytes : List UInt8) : ExceptT Error m Unit := act (host.print bytes) .standardOutput

/-- The text of the document and the name it has in errors. -/
def documentText (i : Invocation) : ExceptT Error m (String × String) := do
  match i.destination.document.filter (!isDash ·) with
  | some path => return (← host.fileText path, path)
  | none =>
    if ← host.isInteractive then throw .noInput
    return (← host.inputText, inputName)

def load (i : Invocation) : ExceptT Error m Document := do
  let (text, name) ← host.documentText i
  liftExcept (Document.parse text name i.reading)

def valueText (i : Invocation) (inline : Option String) : ExceptT Error m String := do
  let source := Source.select i.input inline
  match source.conflict? i.documentOnInput with
  | some e => throw e
  | none => match source with
    | .inline text => return text
    | .file path => return dropLineBreak (← host.fileText path)
    | .standardInput => return dropLineBreak (← host.inputText)

def store (i : Invocation) (document : Document) : ExceptT Error m Unit :=
  let bytes := document.write i.destination.format
  match i.destination.target? with
  | none => host.put bytes
  | some path => act (host.replace path bytes) (.output path)

/-- Stores the document unless the edit failed. -/
def storeEdited (i : Invocation) (edited : Edited Document) : ExceptT Error m Unit :=
  match edited.failure with
  | none => host.store i edited.value
  | some e => throw e

def requirePath : Option String → Except Error String
  | some path => .ok path
  | none => .error (.missingArgument "path")

def requireKind : Option String → Except Error (Option Kind)
  | none => .ok none
  | some name => match Kind.ofName? name with
    | some kind => .ok (some kind)
    | none => .error (.unknownType name)

def warning : String :=
  "Warning: nonewline output with a multi-line format; records will run together"

def get (i : Invocation) (requests : List String) : ExceptT Error m Unit := do
  let document ← host.load i
  let answer := Query.answer i.query document.root requests
  if answer.warned then host.complain warning
  host.put answer.bytes
  liftExcept answer.result

def set (i : Invocation) (kind path value : Option String) : ExceptT Error m Unit := do
  let path ← liftExcept (requirePath path)
  let kind ← liftExcept (requireKind kind)
  let document ← host.load i
  let text ← host.valueText i value
  host.storeEdited i (document.setText i.delimiter path text kind i.reading)

def merge (i : Invocation) (path value : Option String) : ExceptT Error m Unit := do
  let path ← liftExcept (requirePath path)
  let document ← host.load i
  let text ← host.valueText i value
  host.storeEdited i (document.mergeText i.delimiter path text i.reading)

/-- What could be removed is stored as removed, whatever could not. -/
def remove (i : Invocation) (paths : List String) : ExceptT Error m Unit := do
  let document ← host.load i
  let (document, removal) ← liftExcept (document.removePaths i.delimiter paths)
  removal.failures.forM fun (path, e) =>
    host.complain ("Error: " ++ path ++ ": " ++ e.message)
  host.store i document
  match removal.failure with
  | none => return ()
  | some e => throw e

def dump (i : Invocation) : ExceptT Error m Unit := do
  let document ← host.load i
  host.put (Text.bytes (Listing.print document.root).toList)

def perform (i : Invocation) : ExceptT Error m Unit :=
  match i.action with
  | .get requests => host.get i requests
  | .set kind path value => host.set i kind path value
  | .merge path value => host.merge i path value
  | .remove paths => host.remove i paths
  | .dump => host.dump i

def usage : String :=
  "Usage: cfgcmd <get|set|merge|remove|dump> [OPTIONS] [ARGUMENTS]...\n"

def version : String := "cfgcmd 0.3.0\n"

/-- The exit code of a command line that cannot be understood. -/
def misuseCode : UInt8 := 4

/-- Runs a command line that names no command. -/
def stop : Stop → m UInt8
  | .help => do
    let _ ← host.print (Text.bytes usage.toList)
    return 0
  | .version => do
    let _ ← host.print (Text.bytes version.toList)
    return 0
  | .misuse word => do
    host.complain ("error: unexpected or incomplete argument '" ++ word ++ "'")
    host.complain usage
    return misuseCode

/-- Runs a command line and gives its exit code. -/
def run (words : List String) : m UInt8 := do
  match Invocation.parse words with
  | .error reason => host.stop reason
  | .ok i =>
    match ← (host.perform i).run with
    | .ok () => return 0
    | .error e =>
      host.complain ("Error: " ++ e.message)
      return e.exitCode

end Host

end ConfigTree.CommandLine
