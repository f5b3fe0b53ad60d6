import ConfigTree.Binary64.Basic
import ConfigTree.Kind
import ConfigTree.Multimap
import ConfigTree.Text.Digits

/-! The typed tree of a configuration document.  Children are the items of an array, in order, and
the values of an object, key by key. -/

namespace ConfigTree

inductive Node
  | null
  | bool (b : Bool)
  | int (n : Int64)
  | float (x : Binary64)
  | str (s : String)
  /-- A duration in seconds. -/
  | time (seconds : Binary64)
  /-- Opaque application data, which no document text produces. -/
  | userdata (tag : String)
  | array (items : List Node)
  | object (members : Multimap Node)
  deriving Inhabited

namespace Node

def kind : Node → Kind
  | null => .null
  | bool _ => .boolean
  | int _ => .int
  | float _ => .float
  | str _ => .string
  | time _ => .time
  | userdata _ => .userdata
  | array _ => .array
  | object _ => .object

def isCompound (n : Node) : Bool := n.kind.isCompound

/-- Keys of an object, items of an array, bytes of a string. -/
def size : Node → Nat
  | object o => o.size
  | array items => items.length
  | str s => s.utf8ByteSize
  | _ => 0

/-- A path fragment read as an index: decimal digits after an optional plus sign. -/
def index? (fragment : String) : Option Nat := Text.unsigned? 64 10 fragment.toList

def child? (fragment : String) : Node → Option Node
  | array items => (index? fragment).bind (items[·]?)
  | object o => o.get? fragment
  | _ => none

/-- Puts a node in the place of the child under `fragment`, if there is one. -/
def putChild (n : Node) (fragment : String) (child : Node) : Node :=
  match n with
  | array items => match index? fragment with
    | some i => array (items.set i child)
    | none => array items
  | object o => object (o.setFirst fragment child)
  | n => n

/-- Replaces the child under `fragment` by what `f` makes of it, and hands on what `f` reports. -/
def updateChild? {β : Type} (fragment : String) (f : Node → Option (Node × β)) (n : Node) :
    Option (Node × β) :=
  (n.child? fragment).bind fun child => (f child).map fun r => (n.putChild fragment r.1, r.2)

/-- Display keys: the names of members, the places of items. -/
def keys : Node → List String
  | array items => (List.range items.length).map fun i => String.ofList (Text.ofNat i)
  | object o => o.keys
  | _ => []

/-- Children with their display keys; of a repeated key every value. -/
def children : Node → List (String × Node)
  | array items => items.zipIdx.map fun (item, i) => (String.ofList (Text.ofNat i), item)
  | object o => o.toPairs
  | _ => []

/-- Children with their display keys; of a repeated key the first value only. -/
def firstChildren : Node → List (String × Node)
  | array items => items.zipIdx.map fun (item, i) => (String.ofList (Text.ofNat i), item)
  | object o => o.entries.map fun e => (e.1, e.2.first)
  | _ => []

mutual

/-- Nesting depth: scalars are 0, an empty object or array is 1. -/
def depth : Node → Nat
  | array items => 1 + depthItems items
  | object ⟨entries⟩ => 1 + depthEntries entries
  | _ => 0
termination_by structural n => n

def depthItems : List Node → Nat
  | [] => 0
  | n :: ns => max (depth n) (depthItems ns)
termination_by structural ns => ns

def depthEntries : List (String × Member Node) → Nat
  | [] => 0
  | (_, .single n) :: es => max (depth n) (depthEntries es)
  | (_, .repeated ns) :: es => max (depthItems ns) (depthEntries es)
termination_by structural es => es

end

mutual

def beq : Node → Node → Bool
  | null, null => true
  | bool a, bool b => a == b
  | int a, int b => a == b
  | float a, float b => a == b
  | str a, str b => a == b
  | time a, time b => a == b
  | userdata a, userdata b => a == b
  | array as, array bs => beqItems as bs
  | object ⟨as⟩, object ⟨bs⟩ => beqEntries as bs
  | _, _ => false
termination_by structural n => n

def beqItems : List Node → List Node → Bool
  | [], [] => true
  | a :: as, b :: bs => beq a b && beqItems as bs
  | _, _ => false
termination_by structural ns => ns

def beqEntries : List (String × Member Node) → List (String × Member Node) → Bool
  | [], [] => true
  | (k, .single a) :: es, (l, .single b) :: fs => k == l && beq a b && beqEntries es fs
  | (k, .repeated as) :: es, (l, .repeated bs) :: fs =>
    k == l && beqItems as bs && beqEntries es fs
  | _, _ => false
termination_by structural es => es

end

instance : BEq Node := ⟨beq⟩

end Node

end ConfigTree
