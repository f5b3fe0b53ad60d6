import ConfigTree.Listing
import ConfigTree.Query.Walk
import ConfigTree.Request

/-! Running requests.  Some commands report on the place they are at, and the next command of the
chain runs at the same place.  The others lead to further places, and the whole rest of the chain
runs at each of those; with no rest, what is found there is put out. -/

namespace ConfigTree.Query

/-- What a command puts out that does not lead on. -/
def report (o : Options) (p : Place) : Command → Trace Unit
  | .length => .put (.line p.path "" (String.ofList (Text.ofNat (p.node.elim 0 Node.size))))
  | .type => .put (.line p.path "" (p.node.elim "null" (·.kind.name)))
  | .keys => (p.node.elim [] Node.keys).forM fun key => .put (.line "" "" key)
  | .values => (p.node.elim [] Node.children).forM fun (key, child) =>
      .put (.node (some child) p.path (String.singleton o.inputDelimiter ++ key))
  | .dump => .put (.verbatim (Listing.print (p.node.getD .null)))
  | .each | .iterate | .recurse | .select _ => pure ()

/-- Leads on to `next`, where `run` runs the rest of the chain; `record` is for an empty rest. -/
def leadOn (rest : List Command) (run : Place → Trace Unit) (record : Record) (next : Place) :
    Trace Unit :=
  if rest.isEmpty then .put record else run next

/-- Runs `command` at `p`, with `run` for the rest of the chain at the places it leads to.  Gives
the depth of `p` advanced by the number of commands that have been run. -/
def step (o : Options) (rest : List Command) (run : Place → Trace Unit) (p : Place)
    (command : Command) : Trace Nat :=
  let d := o.inputDelimiter
  match command with
  | .each => do
    (p.node.elim [] Node.children).forM fun (key, child) =>
      leadOn rest run (.node (some child) p.path (String.singleton d ++ key))
        ⟨some child, Path.join d p.path key, p.depth + 1⟩
    pure (p.depth + 1 + rest.length)
  | .iterate => do
    (p.node.elim [] Node.firstChildren).forM fun (_, child) =>
      leadOn rest run (.node (some child) p.path "") ⟨some child, p.path, p.depth + 1⟩
    pure (p.depth + 1 + rest.length)
  | .recurse => do
    let visit (q : Place) := leadOn rest run (.node q.node q.path "") q
    p.node.elim (pure ()) (walk o visit p.path p.depth)
    pure (p.depth + 1 + rest.length)
  | .select paths => do
    paths.forM fun path =>
      let child := p.node.bind (Node.lookup? d path)
      leadOn rest run (.node child p.path path)
        ⟨child, Path.join d p.path (Path.normalize d path), p.depth + 1⟩
    pure (p.depth + 1 + rest.length)
  | command => do
    report o p command
    pure (p.depth + 1)

/-- The first command of a chain, within the depth limit. -/
def first (o : Options) (rest : List Command) (run : Place → Trace Unit) (p : Place)
    (command : Command) : Trace Nat := do
  o.checkDepth p.depth
  step o rest run p command

/-- Runs a chain at a place after skipping the commands that have been run. -/
def runFrom (o : Options) : List Command → Nat → Place → Trace Unit
  | [], _, _ => pure ()
  | _ :: rest, skip + 1, p => runFrom o rest skip p
  | command :: rest, 0, p => do
    let reached ← first o rest (runFrom o rest 0) p command
    runFrom o rest (reached - p.depth - 1) p

def runChain (o : Options) (chain : List Command) (p : Place) : Trace Unit := runFrom o chain 0 p

/-- Evaluates the first command of a chain and gives the depth reached. -/
def evaluate (o : Options) (chain : List Command) (p : Place) : Trace Nat :=
  match chain with
  | [] => do
    o.checkDepth p.depth
    pure p.depth
  | command :: rest => first o rest (runChain o rest) p command

/-- A path that leads nowhere is no error; the chain runs on the lack of a node. -/
def run (o : Options) (root : Node) (request : Request) : Trace Unit :=
  let node := root.lookup? o.inputDelimiter request.path
  if request.chain.isEmpty then .put (.node node "" request.path)
  else runChain o request.chain ⟨node, Path.normalize o.inputDelimiter request.path, 0⟩

@[simp] theorem runChain_nil (o : Options) (p : Place) : runChain o [] p = pure () := rfl

theorem runFrom_drop (o : Options) (chain : List Command) (skip : Nat) (p : Place) :
    runFrom o chain skip p = runChain o (chain.drop skip) p := by
  induction chain generalizing skip with
  | nil => simp [runFrom]
  | cons c rest ih =>
    cases skip with
    | zero => rfl
    | succ skip => simp [runFrom, ih]

end ConfigTree.Query
