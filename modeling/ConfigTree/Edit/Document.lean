import ConfigTree.Edit.Merge
import ConfigTree.Edit.Remove
import ConfigTree.Inline
import ConfigTree.Render

/-! Edits of a document with values given as text, and writing the document back. -/

namespace ConfigTree.Document

/-- Edits the tree with a value, if there is one. -/
def editWith (document : Document) (value : Except Error Node) (f : Node → Node → Edited Node) :
    Edited Document :=
  match value with
  | .ok value => (f document.root value).map fun root => { document with root }
  | .error e => .failed document e

/-- Sets a value given as text, of a certain kind if one is asked for. -/
def setText (document : Document) (d : Char) (path text : String) (kind : Option Kind)
    (options : ReadOptions) : Edited Document :=
  let value := match kind with
    | some kind => Inline.parseAs kind text options
    | none => Inline.parse text options
  document.editWith value fun root value => root.set d path value

/-- Merges a value given as text, where of a repeated key the last value wins. -/
def mergeText (document : Document) (d : Char) (path text : String) (options : ReadOptions) :
    Edited Document :=
  document.editWith (Inline.parse text { options with keepRepeats := false }) fun root value =>
    root.merge options.maxDepth d path value

def removePaths (document : Document) (d : Char) (paths : List String) :
    Except Error (Document × Removal) :=
  if paths.isEmpty then .error (.missingArgument "path")
  else
    let (root, removal) := document.root.removeAll d paths
    .ok ({ document with root }, removal)

/-- The format a document is written in: its own unless another is asked for. -/
def formatFor (document : Document) (format : Option Format) : Format :=
  format.getD document.dialect.format

/-- The bytes of the document, which end in a newline if they are text. -/
def write (document : Document) (format : Option Format) : List UInt8 :=
  let format := document.formatFor format
  let bytes := document.root.render format
  if format != .messagePack && bytes.getLast? != some 10 then bytes ++ [10] else bytes

end ConfigTree.Document
