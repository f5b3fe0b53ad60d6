import ConfigTree.Edit.Basic

/-! Merging a value into the node at a path.  Arrays are appended, objects are merged key by key, an
array takes anything else as one more item, and two scalars become an array.  For any other mix the
parent keeps both: an object under a repeated key; an array has its item replaced. -/

namespace ConfigTree.Node

mutual

/-- Merges a value into an object under `key`.  Objects meet at level `depth + 1` at most `limit`.
-/
def mergeUnder (limit depth : Nat) (key : String) (target : Multimap Node) :
    Node → Edited (Multimap Node)
  | object ⟨incoming⟩ =>
    match target.get? key with
    | some (object o) =>
      (if limit < depth + 1 then .failed o (.tooDeep limit)
        else mergeMembers limit (depth + 1) o incoming).map fun o => target.setFirst key (object o)
    | _ => .done (target.insert key (object ⟨incoming⟩))
  | array items =>
    match target.get? key with
    | some (array old) => .done (target.setFirst key (array (old ++ items)))
    | _ => .done (target.insert key (array items))
  | n => .done (target.insert key n)
termination_by structural n => n

/-- The values of a repeated key. -/
def mergeRepeats (limit depth : Nat) (key : String) (target : Multimap Node) :
    List Node → Edited (Multimap Node)
  | [] => .done target
  | n :: ns =>
    (mergeUnder limit depth key target n).andThen fun target =>
      mergeRepeats limit depth key target ns
termination_by structural ns => ns

def mergeMembers (limit depth : Nat) (target : Multimap Node) :
    List (String × Member Node) → Edited (Multimap Node)
  | [] => .done target
  | (key, .single n) :: es =>
    (mergeUnder limit depth key target n).andThen fun target => mergeMembers limit depth target es
  | (key, .repeated ns) :: es =>
    (mergeRepeats limit depth key target ns).andThen fun target =>
      mergeMembers limit depth target es
termination_by structural es => es

end

def mergeObjects (limit depth : Nat) (target incoming : Multimap Node) : Edited (Multimap Node) :=
  if limit < depth then .failed target (.tooDeep limit)
  else mergeMembers limit depth target incoming.entries

/-- How two nodes combine in place. -/
inductive Combined
  | merged (result : Edited Node)
  /-- They do not; the value is left over. -/
  | leftOver (value : Node)

def combine (limit : Nat) : Node → Node → Combined
  | array old, array items => .merged (.done (array (old ++ items)))
  | object o, object incoming => .merged ((mergeObjects limit 1 o incoming).map object)
  | array old, value => .merged (.done (array (old ++ [value])))
  | target, value =>
    if target.isCompound || value.isCompound then .leftOver value
    else .merged (.done (array [target, value]))

/-- Keeps a value beside the child it did not combine with. -/
def keepBoth (location : Location) (path : String) (value : Node) : Node → Edited Node
  | object o => .done (object (o.modify location.cut.fragment (·.push value)))
  | parent => attach location path value parent

/-- Merges a value into the child at the final fragment of a path. -/
def mergeChild (limit : Nat) (location : Location) (path : String) (value parent : Node) :
    Edited Node :=
  match parent.child? location.cut.fragment with
  | none => .failed parent (.keyNotFound path)
  | some child =>
    match combine limit child value with
    | .merged result => result.map fun child => parent.putChild location.cut.fragment child
    | .leftOver value => keepBoth location path value parent

/-- Merges `value` into the node at `path`; where there is none yet, the value is attached. -/
def merge (root : Node) (limit : Nat) (d : Char) (path : String) (value : Node) : Edited Node :=
  match root.locate? d path with
  | none => .failed root (.parentNotFound path)
  | some location =>
    if location.cut.isRoot then
      match combine limit root value with
      | .merged result => result
      | .leftOver value => .failed root (.invalidRoot .merge value.kind)
    else
      root.editParent d path fun parent =>
        if location.isOccupied then mergeChild limit location path value parent
        else attach location path value parent

end ConfigTree.Node
