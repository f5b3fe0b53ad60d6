import ConfigTree.Node

/-! Trees with a place left open.  The place is anywhere in the tree: at the top, or at any depth in
arrays, under keys and among the values of repeated keys. -/

namespace ConfigTree.Node

inductive Context
  | hole
  | item (before : List Node) (place : Context) (after : List Node)
  | single (before : List (String × Member Node)) (key : String) (place : Context)
    (after : List (String × Member Node))
  | repeated (before : List (String × Member Node)) (key : String) (earlier : List Node)
    (place : Context) (later : List Node) (after : List (String × Member Node))

namespace Context

/-- The tree with the node in the open place. -/
def fill : Context → Node → Node
  | hole, n => n
  | item before place after, n => array (before ++ place.fill n :: after)
  | single before key place after, n =>
    object ⟨before ++ (key, .single (place.fill n)) :: after⟩
  | repeated before key earlier place later after, n =>
    object ⟨before ++ (key, .repeated (earlier ++ place.fill n :: later)) :: after⟩

theorem isCompound_fill (c : Context) {n m : Node} (h : n.isCompound = m.isCompound) :
    (c.fill n).isCompound = (c.fill m).isCompound := by
  cases c with
  | hole => exact h
  | _ => rfl

end Context

end ConfigTree.Node
