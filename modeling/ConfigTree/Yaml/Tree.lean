import ConfigTree.Yaml.Token.Basic

/-! The content of a YAML document before its aliases and tags are resolved.  An anchor names a
slot; of the nodes that share a slot the last one to start is its content. -/

namespace ConfigTree.Yaml

inductive Tree
  | reference (slot : Nat)
  | scalar (tag : Option TagText) (plain : Bool) (text : String)
  | sequence (tag : Option TagText) (items : List Tree)
  | mapping (tag : Option TagText) (pairs : List (Tree × Tree))
  deriving Inhabited

namespace Tree

/-- A missing scalar. -/
def empty : Tree := scalar none true ""

mutual

/-- Scalars and aliases count once, collections once at each end. -/
def weight : Tree → Nat
  | reference _ | scalar .. => 1
  | sequence _ items => 2 + weightItems items
  | mapping _ pairs => 2 + weightPairs pairs
termination_by structural t => t

def weightItems : List Tree → Nat
  | [] => 0
  | t :: ts => t.weight + weightItems ts
termination_by structural ts => ts

def weightPairs : List (Tree × Tree) → Nat
  | [] => 0
  | (k, v) :: ps => k.weight + v.weight + weightPairs ps
termination_by structural ps => ps

end

end Tree

/-- A node with an anchor. -/
structure Anchored where
  slot : Nat
  /-- Anchored nodes that started before. -/
  order : Nat
  tree : Tree

structure Document where
  root : Tree
  anchored : List Anchored

/-- The content of a slot. -/
def Document.slot? (d : Document) (slot : Nat) : Option Tree :=
  let candidates := d.anchored.filter (·.slot == slot)
  (candidates.foldl (fun best a => match best with
    | some b => if b.order < a.order then some a else some b
    | none => some a) none).map Anchored.tree

end ConfigTree.Yaml
