import ConfigTree.Path
import ConfigTree.Query.Options
import ConfigTree.Query.Trace

/-! The walk over a whole subtree, each node before its children.  A node whose display path is
empty is not visited itself, only its children. -/

namespace ConfigTree.Query

/-- Where a chain of commands starts: a node or the lack of one, its display path, and how deep the
evaluation is. -/
structure Place where
  node : Option Node
  path : String
  depth : Nat

def Options.checkDepth (o : Options) (depth : Nat) : Trace Unit :=
  if o.maxDepth < depth then .halt (.tooDeep o.maxDepth) else pure ()

/-- A record that only stands in an expanded walk. -/
def Options.putExpanded (o : Options) (r : Record) : Trace Unit :=
  if o.expand then .put r else pure ()

/-- Visits a node under its display path, if it has one. -/
def visitNamed (visit : Place → Trace Unit) (p : Place) : Trace Unit :=
  if p.path.isEmpty then pure () else visit p

mutual

def walk (o : Options) (visit : Place → Trace Unit) (path : String) (depth : Nat) :
    Node → Trace Unit
  | .array items => do
    o.checkDepth depth
    visitNamed visit ⟨some (.array items), path, depth⟩
    if path.isEmpty then pure ()
    else o.putExpanded (.node (some (.int (.ofNat items.length))) path "_length")
    walkItems o visit path depth 0 items
  | .object ⟨entries⟩ => do
    o.checkDepth depth
    visitNamed visit ⟨some (.object ⟨entries⟩), path, depth⟩
    o.putExpanded (.node (some (.str (" ".intercalate (entries.map Prod.fst)))) path "_keys")
    walkMembers o visit path depth entries
  | n => do
    o.checkDepth depth
    visitNamed visit ⟨some n, path, depth⟩
termination_by structural n => n

/-- The items of an array from `index` on. -/
def walkItems (o : Options) (visit : Place → Trace Unit) (path : String) (depth index : Nat) :
    List Node → Trace Unit
  | [] => pure ()
  | n :: ns => do
    let childPath := Path.join o.inputDelimiter path (String.ofList (Text.ofNat index))
    if n.isCompound then walk o visit childPath (depth + 1) n
    else visit ⟨some n, childPath, depth + 1⟩
    walkItems o visit path depth (index + 1) ns
termination_by structural ns => ns

/-- The values of a repeated key. -/
def walkRepeats (o : Options) (visit : Place → Trace Unit) (childPath : String) (depth : Nat) :
    List Node → Trace Unit
  | [] => pure ()
  | n :: ns => do
    if n.isCompound then walk o visit childPath (depth + 1) n
    else visit ⟨some n, childPath, depth + 1⟩
    walkRepeats o visit childPath depth ns
termination_by structural ns => ns

def walkMembers (o : Options) (visit : Place → Trace Unit) (path : String) (depth : Nat) :
    List (String × Member Node) → Trace Unit
  | [] => pure ()
  | (key, .single n) :: es => do
    let childPath := Path.join o.inputDelimiter path key
    if n.isCompound then walk o visit childPath (depth + 1) n
    else visit ⟨some n, childPath, depth + 1⟩
    walkMembers o visit path depth es
  | (key, .repeated ns) :: es => do
    walkRepeats o visit (Path.join o.inputDelimiter path key) depth ns
    walkMembers o visit path depth es
termination_by structural es => es

end

end ConfigTree.Query
