import ConfigTree.Query.Run
import ConfigTree.Render

/-! Writing the records of a query.  In text format a record is one scalar for the shell; in the
other formats it is a whole tree.  Records end with a newline, or are set apart by spaces. -/

namespace ConfigTree.Query

/-- What the output so far says about the rest. -/
structure Output where
  /-- A record has been written. -/
  started : Bool
  /-- It has been warned that records run together. -/
  warned : Bool
  deriving DecidableEq, Repr

namespace Output

def start : Output := ⟨false, false⟩

instance : Inhabited Output := ⟨start⟩

end Output

namespace Options

/-- Display path and key without one leading delimiter, written with the output delimiter. -/
def label (o : Options) (path key : String) : String :=
  String.ofList ((Path.dropLeading o.inputDelimiter (path.toList ++ key.toList)).map fun c =>
    if c = o.inputDelimiter then o.outputDelimiter else c)

def labelText (o : Options) (path key : String) : List Char :=
  let label := o.label path key
  if o.showKeys && !label.isEmpty then label.toList ++ ['='] else []

/-- A node in text format. -/
def nodeText (o : Options) : Node → List Char
  | .null => "null".toList
  | .bool b => if b then "true".toList else "false".toList
  | .int n => Text.ofInt n.toInt
  | .float x | .time x => x.fixed 6
  | .str s => if o.raw then s.toList else '"' :: s.toList ++ ['"']
  | .userdata _ => "\x7buserdata\x7d".toList
  | .object _ => "\x7bobject\x7d".toList
  | .array _ => "[array]".toList

def newline : UInt8 := 10

/-- A record with what stands before and after its content.  `ended` content needs no newline. -/
def frame (o : Options) (s : Output) (path key : String) (content : List UInt8) (ended : Bool) :
    List UInt8 :=
  Text.bytes ((if o.noNewline && s.started then [' '] else []) ++ o.labelText path key) ++
    content ++ if o.noNewline || ended then [] else [newline]

/-- Records of trees run together when they are not ended by newlines. -/
def runsTogether (o : Options) : Bool :=
  o.noNewline && o.format.isStructured && o.format != .compactJson

/-- The bytes of a record, and the output after it. -/
def write (o : Options) (s : Output) : Record → List UInt8 × Output
  | .node node path key =>
    let node := node.getD .null
    if o.format.isStructured then
      let content := node.render o.format
      (o.frame s path key content
          (o.format == .messagePack || content.getLast? == some newline),
        ⟨true, s.warned || o.runsTogether⟩)
    else (o.frame s path key (Text.bytes (o.nodeText node)) false, { s with started := true })
  | .line path key text =>
    (o.frame s path key (Text.bytes text.toList) false, { s with started := true })
  | .verbatim text => (Text.bytes text.toList, s)

def writeAll (o : Options) (s : Output) : List Record → List UInt8 × Output
  | [] => ([], s)
  | r :: rs =>
    let (bytes, s) := o.write s r
    let (more, s) := o.writeAll s rs
    (bytes ++ more, s)

theorem writeAll_append (o : Options) (s : Output) (rs ts : List Record) :
    o.writeAll s (rs ++ ts) = ((o.writeAll s rs).1 ++ (o.writeAll (o.writeAll s rs).2 ts).1,
      (o.writeAll (o.writeAll s rs).2 ts).2) := by
  induction rs generalizing s with
  | nil => rfl
  | cons r rs ih => simp only [List.cons_append, writeAll, ih, List.append_assoc]

/-- What ends the output. -/
def finish (o : Options) (s : Output) : List UInt8 :=
  if o.noNewline && s.started then [newline] else []

end Options

/-- What running requests comes to. -/
structure Answer where
  bytes : List UInt8
  warned : Bool
  result : Except Error Unit

/-- The output of a trace; it is only ended where there was no error. -/
def Trace.answer (o : Options) (t : Trace Unit) : Answer :=
  let (bytes, s) := o.writeAll .start t.records
  match t.result with
  | .ok () => ⟨bytes ++ o.finish s, s.warned, .ok ()⟩
  | .error e => ⟨bytes, s.warned, .error e⟩

/-- Parses all requests before the first is run. -/
def parseAll (o : Options) (requests : List String) : Except Error (List Request) :=
  if requests.isEmpty then .error (.missingArgument "path")
  else requests.mapM (Request.parse o.inputDelimiter)

/-- Runs requests on a tree, in order. -/
def answer (o : Options) (root : Node) (requests : List String) : Answer :=
  match parseAll o requests with
  | .ok requests => Trace.answer o (requests.forM (run o root))
  | .error e => ⟨[], false, .error e⟩

end ConfigTree.Query
