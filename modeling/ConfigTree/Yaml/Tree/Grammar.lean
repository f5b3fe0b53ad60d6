import ConfigTree.Yaml.Tree

/-! The tree that tokens spell out.  Every step takes a token or descends one rule, and no more than
four rules lie between two tokens. -/

namespace ConfigTree.Yaml

namespace Grammar

structure State where
  tokens : List MarkedToken
  /-- Handles of tags and what they stand for. -/
  handles : List (String × TagText)
  /-- Slots of the anchors so far. -/
  slots : List (String × Nat)
  anchored : List Anchored
  /-- Anchored nodes that have started. -/
  started : Nat

abbrev Step := StateT State (Except Fault)

def defaultHandles : List (String × TagText) :=
  [("!", [33]), ("!!", "tag:yaml.org,2002:".toUTF8.toList)]

def peek : Step Token := do return ((← get).tokens.head?.map (·.token)).getD .streamEnd

def skip : Step Unit := modify fun s => { s with tokens := s.tokens.drop 1 }

def fail {α : Type} (problem : Problem) : Step α := do
  let mark := ((← get).tokens.head?.map (·.mark)).getD ⟨0, 0⟩
  throw ⟨problem, mark⟩

/-- An anchor takes the slot numbered by the names before it, even where its own name is one. -/
def takeSlot (name : String) : Step Nat := do
  let s ← get
  let slot := s.slots.length
  let slots := if s.slots.any (·.1 == name) then
    s.slots.map fun p => if p.1 == name then (name, slot) else p
  else s.slots ++ [(name, slot)]
  set { s with slots, started := s.started + 1 }
  return slot

structure Properties where
  anchor : Option String
  tag : Option TagText

def anchor? : Step (Option String) := do
  match ← peek with
  | .anchor name => skip; return some name
  | _ => return none

def tag? : Step (Option (String × TagText)) := do
  match ← peek with
  | .tag handle suffix => skip; return some (handle, suffix)
  | _ => return none

/-- An anchor and a tag in either order. -/
def properties : Step Properties := do
  let before ← anchor?
  let tag ← tag?
  let anchor ← match before with
    | some name => pure (some name)
    | none => if tag.isSome then anchor? else pure none
  match tag with
  | none => return ⟨anchor, none⟩
  | some (handle, suffix) =>
    if handle.isEmpty then return ⟨anchor, some suffix⟩
    else match (← get).handles.lookup handle with
      | some start => return ⟨anchor, some (start ++ suffix)⟩
      | none => fail .unknownHandle

/-- On a scalar the tag `!` says nothing. -/
def scalar (tag : Option TagText) (plain : Bool) (text : String) : Tree :=
  .scalar (if tag = some [33] then none else tag) plain text

mutual

/-- A node; block collections are allowed or not, and so is a block sequence without indentation. -/
def node : Nat → Bool → Bool → Step Tree
  | 0, _, _ => fail .recursionLimit
  | fuel + 1, block, indentless => do
    match ← peek with
    | .reference name =>
      match (← get).slots.lookup name with
      | some slot => skip; return .reference slot
      | none => fail .unknownAnchor
    | _ =>
      let p ← properties
      match p.anchor with
      | none => content fuel block indentless p
      | some name =>
        let order := (← get).started
        let slot ← takeSlot name
        let tree ← content fuel block indentless p
        modify fun s => { s with anchored := ⟨slot, order, tree⟩ :: s.anchored }
        return tree

/-- A node after its properties. -/
def content : Nat → Bool → Bool → Properties → Step Tree
  | 0, _, _, _ => fail .recursionLimit
  | fuel + 1, block, indentless, p => do
    match ← peek with
    | .blockEntry =>
      if indentless then return .sequence p.tag (← indentlessItems fuel)
      else if p.anchor.isSome || p.tag.isSome then return .scalar p.tag true ""
      else fail .expectedNode
    | .scalar plain text => skip; return scalar p.tag plain text
    | .flowSequenceStart => skip; return .sequence p.tag (← flowItems fuel true)
    | .flowMappingStart => skip; return .mapping p.tag (← flowPairs fuel true)
    | token =>
      if block && token == .blockSequenceStart then
        skip; return .sequence p.tag (← blockItems fuel)
      else if block && token == .blockMappingStart then
        skip; return .mapping p.tag (← blockPairs fuel)
      else if p.anchor.isSome || p.tag.isSome then return .scalar p.tag true ""
      else fail .expectedNode

def blockItems : Nat → Step (List Tree)
  | 0 => fail .recursionLimit
  | fuel + 1 => do
    match ← peek with
    | .blockEntry =>
      skip
      let item ← match ← peek with
        | .blockEntry | .blockEnd => pure .empty
        | _ => node fuel true false
      return item :: (← blockItems fuel)
    | .blockEnd => skip; return []
    | _ => fail .expectedEntry

def indentlessItems : Nat → Step (List Tree)
  | 0 => fail .recursionLimit
  | fuel + 1 => do
    match ← peek with
    | .blockEntry =>
      skip
      let item ← match ← peek with
        | .blockEntry | .key | .value | .blockEnd => pure .empty
        | _ => node fuel true false
      return item :: (← indentlessItems fuel)
    | _ => return []

/-- A key or value in a block mapping, which may be missing. -/
def blockPart : Nat → Step Tree
  | 0 => fail .recursionLimit
  | fuel + 1 => do
    match ← peek with
    | .key | .value | .blockEnd => return .empty
    | _ => node fuel true true

def blockPairs : Nat → Step (List (Tree × Tree))
  | 0 => fail .recursionLimit
  | fuel + 1 => do
    match ← peek with
    | .key =>
      skip
      let k ← blockPart fuel
      let v ← match ← peek with
        | .value => skip; blockPart fuel
        | _ => pure .empty
      return (k, v) :: (← blockPairs fuel)
    | .blockEnd => skip; return []
    | _ => fail .expectedKey

/-- Items up to the closing bracket, from the first on or after it. -/
def flowItems : Nat → Bool → Step (List Tree)
  | 0, _ => fail .recursionLimit
  | fuel + 1, first => do
    match ← peek with
    | .flowSequenceEnd => skip; return []
    | token =>
      if !first then
        if token == .flowEntry then skip else fail .expectedFlowEntry
      match ← peek with
      | .flowSequenceEnd => skip; return []
      | .key => skip; return (← singlePair fuel) :: (← flowItems fuel false)
      | _ =>
        let item ← node fuel false false
        return item :: (← flowItems fuel false)

/-- A mapping of one pair that stands for an item.  A missing key takes the token in its place. -/
def singlePair : Nat → Step Tree
  | 0 => fail .recursionLimit
  | fuel + 1 => do
    let k ← match ← peek with
      | .value | .flowEntry | .flowSequenceEnd => skip; pure .empty
      | _ => node fuel false false
    let v ← match ← peek with
      | .value =>
        skip
        match ← peek with
        | .flowEntry | .flowSequenceEnd => pure .empty
        | _ => node fuel false false
      | _ => pure .empty
    return .mapping none [(k, v)]

/-- Pairs up to the closing brace, from the first on or after it. -/
def flowPairs : Nat → Bool → Step (List (Tree × Tree))
  | 0, _ => fail .recursionLimit
  | fuel + 1, first => do
    match ← peek with
    | .flowMappingEnd => skip; return []
    | token =>
      if !first then
        if token == .flowEntry then skip else fail .expectedFlowEntry
      match ← peek with
      | .flowMappingEnd => skip; return []
      | .key =>
        skip
        let k ← match ← peek with
          | .value | .flowEntry | .flowMappingEnd => pure .empty
          | _ => node fuel false false
        let v ← match ← peek with
          | .value =>
            skip
            match ← peek with
            | .flowEntry | .flowMappingEnd => pure .empty
            | _ => node fuel false false
          | _ => pure .empty
        return (k, v) :: (← flowPairs fuel false)
      | _ =>
        let k ← node fuel false false
        return (k, .empty) :: (← flowPairs fuel false)

end

/-- Directives, of which a version and each handle may be given once. -/
def directives : Nat → Bool → List (String × TagText) → Step (List (String × TagText))
  | 0, _, handles => return handles
  | fuel + 1, versioned, handles => do
    match ← peek with
    | .version major minor =>
      if versioned || major != 1 || !(minor == 1 || minor == 2) then fail .invalidDirective
      else skip; directives fuel true handles
    | .handle name start =>
      if handles.any (·.1 == name) then fail .invalidDirective
      else skip; directives fuel versioned (handles ++ [(name, start)])
    | _ => return handles

def skipDocumentEnds : Nat → Step Unit
  | 0 => pure ()
  | fuel + 1 => do
    match ← peek with
    | .documentEnd => skip; skipDocumentEnds fuel
    | _ => pure ()

/-- The root of the only document; an empty text has none. -/
def root (fuel : Nat) : Step (Option Tree) := do
  match ← peek with
  | .streamEnd => return none
  | .version .. | .handle .. | .documentStart =>
    let handles ← directives fuel false []
    modify fun s => { s with handles := handles ++ defaultHandles }
    match ← peek with
    | .documentStart =>
      skip
      match ← peek with
      | .version .. | .handle .. | .documentStart | .documentEnd | .streamEnd => return some .empty
      | _ => some <$> node fuel true false
    | _ => fail .expectedDocument
  | _ => some <$> node fuel true false

def document (fuel : Nat) : Step Document := do
  let root ← root fuel
  skipDocumentEnds fuel
  match ← peek with
  | .streamEnd => return ⟨root.getD .empty, (← get).anchored⟩
  | .documentStart => fail .severalDocuments
  | _ => fail .expectedDocument

end Grammar

/-- The document that tokens spell out. -/
def Document.ofTokens (tokens : List MarkedToken) : Except Fault Document :=
  (Grammar.document (4 * tokens.length + 8)).run'
    ⟨tokens, Grammar.defaultHandles, [], [], 0⟩

end ConfigTree.Yaml
