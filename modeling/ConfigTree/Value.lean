import ConfigTree.Node
import ConfigTree.Text.Lowercase

/-! Plain data, as a document text spells it out and as a printer writes it: a map is a list of
pairs in the order written, where a key may repeat.  Reading gathers the pairs of a map into an
object; writing spreads an object into pairs, with a repeated key holding a list of its values. -/

namespace ConfigTree

inductive Value
  | null
  | bool (b : Bool)
  | int (n : Int64)
  | float (x : Binary64)
  | str (s : String)
  | seq (items : List Value)
  | map (pairs : List (String × Value))
  deriving Inhabited

/-- How documents are read. -/
structure ReadOptions where
  /-- Keys are folded to lower case. -/
  foldCase : Bool
  /-- A repeated key keeps all its values; otherwise the last one wins. -/
  keepRepeats : Bool
  maxDepth : Nat
  deriving DecidableEq, Repr

/-- The nesting limit where no other is given. -/
def defaultMaxDepth : Nat := 128

instance : Inhabited ReadOptions := ⟨⟨false, true, defaultMaxDepth⟩⟩

namespace ReadOptions

def key (options : ReadOptions) (key : String) : String :=
  if options.foldCase then String.ofList (Text.lowercase key.toList) else key

def gather (options : ReadOptions) (pairs : List (String × Node)) : Multimap Node :=
  if options.keepRepeats then .ofPairs pairs else .ofLatest pairs

end ReadOptions

namespace Value

mutual

/-- The node a document with this content has. -/
def toNode (options : ReadOptions) : Value → Node
  | null => .null
  | bool b => .bool b
  | int n => .int n
  | float x => .float x
  | str s => .str s
  | seq items => .array (itemsToNodes options items)
  | map pairs => .object (options.gather (pairsToNodes options pairs))
termination_by structural v => v

def itemsToNodes (options : ReadOptions) : List Value → List Node
  | [] => []
  | v :: vs => toNode options v :: itemsToNodes options vs
termination_by structural vs => vs

def pairsToNodes (options : ReadOptions) : List (String × Value) → List (String × Node)
  | [] => []
  | (k, v) :: ps => (options.key k, toNode options v) :: pairsToNodes options ps
termination_by structural ps => ps

end

theorem itemsToNodes_eq_map (options : ReadOptions) (vs : List Value) :
    itemsToNodes options vs = vs.map (toNode options) := by
  induction vs with
  | nil => rfl
  | cons v vs ih => simp [itemsToNodes, ih]

theorem pairsToNodes_eq_map (options : ReadOptions) (ps : List (String × Value)) :
    pairsToNodes options ps = ps.map fun p => (options.key p.1, toNode options p.2) := by
  induction ps with
  | nil => rfl
  | cons p ps ih => simp [pairsToNodes, ih]

end Value

namespace Node

mutual

/-- What is written for a node.  Durations are written as numbers, and what is opaque as null. -/
def toValue : Node → Value
  | null | userdata _ => .null
  | bool b => .bool b
  | int n => .int n
  | float x | time x => .float x
  | str s => .str s
  | array items => .seq (itemsToValues items)
  | object ⟨entries⟩ => .map (entriesToPairs entries)
termination_by structural n => n

def itemsToValues : List Node → List Value
  | [] => []
  | n :: ns => toValue n :: itemsToValues ns
termination_by structural ns => ns

def entriesToPairs : List (String × Member Node) → List (String × Value)
  | [] => []
  | (k, .single n) :: es => (k, toValue n) :: entriesToPairs es
  | (k, .repeated ns) :: es => (k, .seq (itemsToValues ns)) :: entriesToPairs es
termination_by structural es => es

end

theorem itemsToValues_eq_map (ns : List Node) : itemsToValues ns = ns.map toValue := by
  induction ns with
  | nil => rfl
  | cons n ns ih => simp [itemsToValues, ih]

end Node

end ConfigTree
