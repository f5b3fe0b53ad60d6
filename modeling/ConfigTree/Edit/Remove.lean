import ConfigTree.Edit.Basic

/-! Removing nodes.  A repeated key goes with all its values.  Of several paths each is resolved
in the tree as the removals before it left it, and one that fails is recorded and skipped. -/

namespace ConfigTree.Node

/-- Removes the child under a fragment. -/
def detach (path fragment : String) : Node → Edited Node
  | object o =>
    if o.contains fragment then .done (object (o.erase fragment))
    else .failed (object o) (.keyNotFound path)
  | array items =>
    match index? fragment with
    | some i =>
      if i < items.length then .done (array (items.eraseIdx i))
      else .failed (array items) (.keyNotFound path)
    | none => .failed (array items) (.keyNotFound path)
  | n => .failed n (.invalidParent path n.kind)

def remove (d : Char) (path : String) (root : Node) : Edited Node :=
  match root.locate? d path with
  | none => .failed root (.parentNotFound path)
  | some location =>
    if location.cut.isRoot then .failed root (.invalidRoot .remove root.kind)
    else if !location.isOccupied then .failed root (.keyNotFound path)
    else root.editParent d path (detach path location.cut.fragment)

end ConfigTree.Node

namespace ConfigTree

/-- What came of several removals. -/
structure Removal where
  removed : Nat
  /-- The paths that could not be removed, and why. -/
  failures : List (String × Error)
  deriving DecidableEq, Repr

namespace Removal

def start : Removal := ⟨0, []⟩

def isComplete (r : Removal) : Bool := r.failures.isEmpty

/-- What the removals as a whole failed with. -/
def failure (r : Removal) : Option Error :=
  if r.isComplete then none else some (.partialRemoval r.failures.length)

/-- The removal of one more path. -/
def record (r : Removal) (path : String) : Option Error → Removal
  | none => { r with removed := r.removed + 1 }
  | some e => { r with failures := r.failures ++ [(path, e)] }

end Removal

namespace Node

def removeFrom (d : Char) : List String → Node → Removal → Node × Removal
  | [], root, r => (root, r)
  | path :: paths, root, r =>
    let edited := root.remove d path
    removeFrom d paths edited.value (r.record path edited.failure)

def removeAll (d : Char) (paths : List String) (root : Node) : Node × Removal :=
  removeFrom d paths root .start

end Node

end ConfigTree
