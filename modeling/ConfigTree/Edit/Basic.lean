import ConfigTree.Error
import ConfigTree.Path

/-! Edits of a tree.  An edit gives the tree after it in any case, and what went wrong if
something did: an edit that fails half way has done its first half.  Attaching puts a value in the
place a path names, which may not exist yet as long as its parent does. -/

namespace ConfigTree

structure Edited (α : Type) where
  value : α
  failure : Option Error

namespace Edited

variable {α β : Type}

def done (a : α) : Edited α := ⟨a, none⟩

def failed (a : α) (e : Error) : Edited α := ⟨a, some e⟩

def map (f : α → β) (e : Edited α) : Edited β := ⟨f e.value, e.failure⟩

/-- A further edit, where the first did not fail. -/
def andThen (e : Edited α) (f : α → Edited α) : Edited α :=
  match e.failure with
  | none => f e.value
  | some _ => e

@[simp] theorem andThen_done (a : α) (f : α → Edited α) : (done a).andThen f = f a := rfl

@[simp] theorem andThen_failed (a : α) (e : Error) (f : α → Edited α) :
    (failed a e).andThen f = failed a e := rfl

end Edited

namespace Node

/-- Edits the node that contains what `path` names. -/
def editParent (d : Char) (path : String) (root : Node) (f : Node → Edited Node) : Edited Node :=
  match root.updateParentOf? d path fun parent => ((f parent).value, (f parent).failure) with
  | some (root, failure) => ⟨root, failure⟩
  | none => .failed root (.parentNotFound path)

/-- Puts `value` under the final fragment of a path.  An array grows where it has no such index. -/
def attach (location : Location) (path : String) (value : Node) : Node → Edited Node
  | object o => .done (object (o.insert location.cut.fragment value))
  | array items =>
    match index? location.cut.fragment with
    | some i =>
      if location.isOccupied && i < items.length then .done (array (items.set i value))
      else .done (array (items ++ [value]))
    | none => .done (array (items ++ [value]))
  | n => .failed n (.invalidParent path n.kind)

/-- Replaces the node at `path`, or inserts it; at the root it replaces the whole tree. -/
def set (root : Node) (d : Char) (path : String) (value : Node) : Edited Node :=
  match root.locate? d path with
  | none => .failed root (.parentNotFound path)
  | some location =>
    if location.cut.isRoot then .done value
    else root.editParent d path (attach location path value)

end Node

end ConfigTree
