import ConfigTree.Node

/-! Paths: texts whose segments are set apart by one delimiter character.  Empty segments say
nothing, so a path is looked up by its other segments alone.  For edits a path is cut at its last
delimiter into the path of the parent and the final fragment. -/

namespace ConfigTree.Path

/-- The text before and after the last `d`, if there is one. -/
def splitLast (d : Char) : List Char → Option (List Char × List Char)
  | [] => none
  | c :: s => match splitLast d s with
    | some (before, after) => some (c :: before, after)
    | none => if c = d then some ([], s) else none

def dropLeading (d : Char) : List Char → List Char
  | [] => []
  | c :: s => if c = d then s else c :: s

def dropTrailing (d : Char) (s : List Char) : List Char :=
  (s.reverse.dropWhile (· == d)).reverse

/-- Drops one leading delimiter and every trailing one. -/
def normalize (d : Char) (path : String) : String :=
  String.ofList (dropTrailing d (dropLeading d path.toList))

/-- A path cut at its last delimiter; no `parent` means the parent is the root. -/
structure Cut where
  parent : Option String
  fragment : String
  deriving DecidableEq, Repr

/-- The path holds nothing but delimiters. -/
def Cut.isRoot (cut : Cut) : Bool := cut.parent.isNone && cut.fragment.isEmpty

def cut (d : Char) (path : String) : Cut :=
  let path := normalize d path
  match splitLast d path.toList with
  | some (before, after) => ⟨some (String.ofList before), String.ofList after⟩
  | none => ⟨none, path⟩

/-- The segments that are not empty. -/
def segments (d : Char) (path : String) : List String :=
  ((path.toList.splitOn d).filter (!·.isEmpty)).map String.ofList

/-- A display path extended by a key. -/
def join (d : Char) (path key : String) : String :=
  if path.isEmpty then key else path ++ String.singleton d ++ key

theorem splitLast_eq_some {d : Char} {s before after : List Char}
    (h : splitLast d s = some (before, after)) : s = before ++ d :: after := by
  induction s generalizing before with
  | nil => simp [splitLast] at h
  | cons c s ih =>
    unfold splitLast at h
    split at h
    · next b a hs => cases h; simp [ih hs]
    · split at h
      · next hc => cases h; simp [hc]
      · cases h

theorem splitLast_eq_none_iff {d : Char} {s : List Char} : splitLast d s = none ↔ d ∉ s := by
  induction s with
  | nil => simp [splitLast]
  | cons c s ih =>
    unfold splitLast
    split
    · next before after hs =>
      have : d ∈ s := by simp [splitLast_eq_some hs]
      simp [this]
    · next hs =>
      have : d ∉ s := ih.1 hs
      by_cases hc : c = d
      · simp [hc]
      · simp [hc, this, Ne.symm hc]

end ConfigTree.Path

namespace ConfigTree.Node

/-- Walks down one segment at a time. -/
def follow? : List String → Node → Option Node
  | [], n => some n
  | s :: ss, n => (n.child? s).bind (follow? ss)

def lookup? (d : Char) (path : String) (n : Node) : Option Node := n.follow? (Path.segments d path)

/-- Replaces the node the segments lead to by what `f` makes of it. -/
def update? {β : Type} (f : Node → Node × β) : List String → Node → Option (Node × β)
  | [], n => some (f n)
  | s :: ss, n => n.updateChild? s (update? f ss)

/-- The node that contains what `path` names. -/
def parentOf? (d : Char) (path : String) (root : Node) : Option Node :=
  match (Path.cut d path).parent with
  | none => some root
  | some parent => root.lookup? d parent

/-- Replaces the node that contains what `path` names. -/
def updateParentOf? {β : Type} (d : Char) (path : String) (f : Node → Node × β) (root : Node) :
    Option (Node × β) :=
  match (Path.cut d path).parent with
  | none => some (f root)
  | some parent => root.update? f (Path.segments d parent)

/-- Where an edit lands. -/
structure Location where
  cut : Path.Cut
  parent : Node
  /-- The child under the final fragment, where the path is not the root. -/
  occupant : Option Node

namespace Location

def isOccupied (l : Location) : Bool := l.occupant.isSome

end Location

/-- Where `path` lands; `none` when its parent does not exist. -/
def locate? (d : Char) (path : String) (root : Node) : Option Location :=
  (root.parentOf? d path).map fun parent =>
    let cut := Path.cut d path
    ⟨cut, parent, if cut.isRoot then none else parent.child? cut.fragment⟩

@[simp] theorem follow?_append (xs ys : List String) (n : Node) :
    n.follow? (xs ++ ys) = (n.follow? xs).bind (follow? ys) := by
  induction xs generalizing n with
  | nil => rfl
  | cons x xs ih =>
    simp only [List.cons_append, follow?]
    cases n.child? x <;> simp [ih]

end ConfigTree.Node
