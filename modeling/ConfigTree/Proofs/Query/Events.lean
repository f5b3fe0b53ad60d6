import ConfigTree.Proofs.Node.Everywhere
import ConfigTree.Query.Run

/-! What a chain means, command by command.  A chain at a place stands for a list of events.  After a
command that reports comes the rest of the chain at the same place; a command that leads on has the
whole rest of the chain at each of its stops, in order, and nothing after them.  Running the chain
performs the events up to the first depth beyond the limit.  The loop that finds its next command by
the depth the last one reached does the same: it always moves on and ends right behind the chain. -/

namespace ConfigTree

namespace Node

theorem mem_inner_of_mem_children {n : Node} {c : String × Node} (h : c ∈ n.children) :
    c.2 ∈ n.inner := by
  cases n with
  | array items =>
    obtain ⟨⟨item, i⟩, hi, rfl⟩ := List.mem_map.1 h
    exact List.fst_mem_of_mem_zipIdx hi
  | object o =>
    obtain ⟨e, he, hc⟩ := List.mem_flatMap.1 h
    obtain ⟨m, hm, rfl⟩ := List.mem_map.1 hc
    exact Multimap.mem_values_of_mem he hm
  | _ => cases h

end Node

/-- The rest of a chain runs at the places the command leads to. -/
def Command.leadsOn : Command → Bool
  | each | iterate | recurse | select _ => true
  | length | type | keys | values | dump => false

namespace Query

/-- A sequence without an error puts out what its parts put out. -/
theorem Trace.exists_of_bind_ok {α β : Type} {t : Trace α} {f : α → Trace β} {b : β}
    (h : (t >>= f).result = .ok b) :
    ∃ a, t.result = .ok a ∧ (f a).result = .ok b ∧
      (t >>= f).records = t.records ++ (f a).records := by
  obtain ⟨records, e | a⟩ := t
  · cases h
  · exact ⟨a, rfl, h, rfl⟩

/-! ## Events -/

inductive Event
  /-- A depth is held against the limit. -/
  | depth (depth : Nat)
  /-- A node, or the lack of one, is put out. -/
  | node (node : Option Node) (path key : String)
  /-- The length or the kind of a node, or of the lack of one. -/
  | figure (node : Option Node) (path text : String)
  | key (key : String)
  | listing (text : String)

namespace Event

def isWithin (limit : Nat) : Event → Bool
  | depth d => d ≤ limit
  | _ => true

def record? : Event → Option Record
  | depth _ => none
  | node n path k => some (.node n path k)
  | figure _ path text => some (.line path "" text)
  | key k => some (.line "" "" k)
  | listing text => some (.verbatim text)

end Event

/-- The records of the events before the first depth beyond the limit. -/
def perform (limit : Nat) (events : List Event) : Trace Unit where
  records := (events.takeWhile (·.isWithin limit)).filterMap Event.record?
  result := if events.all (·.isWithin limit) then .ok () else .error (.tooDeep limit)

section

variable {limit : Nat}

@[simp] theorem perform_nil : perform limit [] = pure () := rfl

theorem perform_cons (e : Event) (es : List Event) :
    perform limit (e :: es) = (perform limit [e] >>= fun _ => perform limit es) := by
  cases he : e.isWithin limit with
  | false => simp [perform, he, bind, Trace.bind]
  | true =>
    have hrecords : (e :: es.takeWhile (·.isWithin limit)).filterMap Event.record? =
        [e].filterMap Event.record? ++
          (es.takeWhile (·.isWithin limit)).filterMap Event.record? :=
      List.filterMap_append (l := [e])
    simp [perform, he, bind, Trace.bind, hrecords]

theorem perform_append (es fs : List Event) :
    perform limit (es ++ fs) = (perform limit es >>= fun _ => perform limit fs) := by
  induction es with
  | nil => rfl
  | cons e es ih => rw [List.cons_append, perform_cons, ih, perform_cons e es, bind_assoc]

theorem perform_flatMap {α : Type} (f : α → List Event) (as : List α) :
    perform limit (as.flatMap f) = as.forM fun a => perform limit (f a) := by
  induction as with
  | nil => rfl
  | cons a as ih =>
    rw [List.flatMap_cons, perform_append, ih]
    rfl

end

/-! ## Commands -/

/-- What a command comes to on its way: an event of its own, or a further place with the display path
and the key it is put out under where no command is left. -/
inductive Stop
  | event (e : Event)
  | place (p : Place) (path key : String)

/-- What happens at a stop, with `next` for what the rest of the chain comes to at a place. -/
def Stop.events (rest : List Command) (next : Place → List Event) : Stop → List Event
  | event e => [e]
  | place p path key => if rest.isEmpty then [.node p.node path key] else next p

/-- Records that an expanded walk puts out beside a node. -/
def asides (expand : Bool) (path : String) : Node → List Event
  | .array items =>
    if expand && !path.isEmpty then [.node (some (.int (.ofNat items.length))) path "_length"]
    else []
  | .object o =>
    if expand then [.node (some (.str (" ".intercalate o.keys))) path "_keys"] else []
  | _ => []

theorem exists_of_mem_asides {expand : Bool} {path : String} {n : Node} {e : Event}
    (h : e ∈ asides expand path n) : ∃ m key, e = .node m path key := by
  cases n with
  | array items =>
    rw [asides] at h
    split at h
    · exact ⟨_, _, List.mem_singleton.1 h⟩
    · cases h
  | object o =>
    rw [asides] at h
    split at h
    · exact ⟨_, _, List.mem_singleton.1 h⟩
    · cases h
  | _ => cases h

/-- A subtree in pre-order, but for a start without a display path.  The depth of every object and
array is checked. -/
def preorder (d : Char) (expand : Bool) (path : String) (depth : Nat) (n : Node) : List Stop :=
  .event (.depth depth) :: (if path.isEmpty then [] else [.place ⟨some n, path, depth⟩ path ""]) ++
    (asides expand path n).map .event ++
    n.children.attach.flatMap fun c =>
      let childPath := Path.join d path c.1.1
      if c.1.2.isCompound then preorder d expand childPath (depth + 1) c.1.2
      else [.place ⟨some c.1.2, childPath, depth + 1⟩ childPath ""]
termination_by sizeOf n
decreasing_by exact Node.sizeOf_lt_of_mem_inner (Node.mem_inner_of_mem_children c.2)

theorem preorder_eq (d : Char) (expand : Bool) (path : String) (depth : Nat) (n : Node) :
    preorder d expand path depth n =
      .event (.depth depth) :: (if path.isEmpty then [] else [.place ⟨some n, path, depth⟩ path ""]) ++
        (asides expand path n).map .event ++
        n.children.flatMap fun c =>
          let childPath := Path.join d path c.1
          if c.2.isCompound then preorder d expand childPath (depth + 1) c.2
          else [.place ⟨some c.2, childPath, depth + 1⟩ childPath ""] := by
  have hattach (f : String × Node → List Stop) :
      (n.children.attach.flatMap fun c => f c.1) = n.children.flatMap f := by
    rw [← List.flatMap_map, List.attach_map_subtype_val]
  rw [← hattach, preorder]

/-- What a command puts out about the node at a place. -/
def reports (d : Char) (p : Place) : Command → List Event
  | .length => [.figure p.node p.path (String.ofList (Text.ofNat (p.node.elim 0 Node.size)))]
  | .type => [.figure p.node p.path (p.node.elim "null" (·.kind.name))]
  | .keys => (p.node.elim [] Node.keys).map .key
  | .values => (p.node.elim [] Node.children).map fun c =>
      .node (some c.2) p.path (String.singleton d ++ c.1)
  | .dump => [.listing (Listing.print (p.node.getD .null))]
  | .each | .iterate | .recurse | .select _ => []

theorem isWithin_reports {limit : Nat} {d : Char} {p : Place} {command : Command} :
    ∀ e ∈ reports d p command, e.isWithin limit = true := by
  intro e he
  cases command with
  | length | type | dump =>
    cases List.mem_singleton.1 he
    rfl
  | keys | values =>
    obtain ⟨c, -, rfl⟩ := List.mem_map.1 he
    rfl
  | _ => cases he

/-- Where a command leads from a place, in order. -/
def stops (d : Char) (expand : Bool) (p : Place) : Command → List Stop
  | .each => (p.node.elim [] Node.children).map fun c =>
      .place ⟨some c.2, Path.join d p.path c.1, p.depth + 1⟩ p.path (String.singleton d ++ c.1)
  | .iterate => (p.node.elim [] Node.firstChildren).map fun c =>
      .place ⟨some c.2, p.path, p.depth + 1⟩ p.path ""
  | .recurse => p.node.elim [] (preorder d expand p.path p.depth)
  | .select paths => paths.map fun path =>
      .place ⟨p.node.bind (Node.lookup? d path), Path.join d p.path (Path.normalize d path),
        p.depth + 1⟩ p.path path
  | .length | .type | .keys | .values | .dump => []

def events (d : Char) (expand : Bool) : List Command → Place → List Event
  | [], _ => []
  | command :: rest, p =>
    .depth p.depth ::
      if command.leadsOn then
        (stops d expand p command).flatMap (Stop.events rest (events d expand rest))
      else reports d p command ++ events d expand rest p

/-! ## The walk -/

variable {o : Options} {visit : Place → Trace Unit} {path : String} {depth : Nat}

def walkChild (o : Options) (visit : Place → Trace Unit) (path : String) (depth : Nat)
    (n : Node) : Trace Unit :=
  if n.isCompound then walk o visit path depth n else visit ⟨some n, path, depth⟩

theorem walkChild_bind (n : Node) (rest : Unit → Trace Unit) :
    (walkChild o visit path depth n >>= rest) =
      if n.isCompound then walk o visit path depth n >>= rest
      else visit ⟨some n, path, depth⟩ >>= rest := by
  rw [walkChild]
  split <;> rfl

theorem walkItems_eq (index : Nat) (ns : List Node) :
    walkItems o visit path depth index ns = (ns.zipIdx index).forM fun c =>
      walkChild o visit (Path.join o.inputDelimiter path (String.ofList (Text.ofNat c.2)))
        (depth + 1) c.1 := by
  induction ns generalizing index with
  | nil => rfl
  | cons n ns ih =>
    rw [walkItems, ih]
    exact (walkChild_bind n _).symm

theorem walkRepeats_eq (ns : List Node) :
    walkRepeats o visit path depth ns = ns.forM (walkChild o visit path (depth + 1)) := by
  induction ns with
  | nil => rfl
  | cons n ns ih =>
    rw [walkRepeats, ih]
    exact (walkChild_bind n _).symm

theorem walkMembers_eq (es : List (String × Member Node)) :
    walkMembers o visit path depth es = es.forM fun e =>
      e.2.values.forM (walkChild o visit (Path.join o.inputDelimiter path e.1) (depth + 1)) := by
  induction es with
  | nil => rfl
  | cons e es ih =>
    obtain ⟨key, n | ns⟩ := e
    · rw [walkMembers, ih]
      exact (walkChild_bind n _).symm.trans (congrArg (· >>= _) (bind_pure _).symm)
    · rw [walkMembers, ih, walkRepeats_eq]
      rfl

theorem forM_flatMap {α β : Type} (f : α → List β) (k : β → Trace Unit) (as : List α) :
    (as.flatMap f).forM k = as.forM fun a => (f a).forM k := by
  induction as with
  | nil => rfl
  | cons a as ih =>
    rw [List.flatMap_cons, List.forM_eq_forM, List.forM_append]
    exact congrArg (forM (f a) k >>= fun _ => ·) ih

theorem walk_eq (n : Node) :
    walk o visit path depth n = (do
      o.checkDepth depth
      visitNamed visit ⟨some n, path, depth⟩
      perform o.maxDepth (asides o.expand path n)
      n.children.forM fun c =>
        walkChild o visit (Path.join o.inputDelimiter path c.1) (depth + 1) c.2) := by
  cases n with
  | array items =>
    have hchildren : (Node.array items).children.forM (fun c =>
        walkChild o visit (Path.join o.inputDelimiter path c.1) (depth + 1) c.2) =
          walkItems o visit path depth 0 items := by
      rw [walkItems_eq, Node.children, List.forM_eq_forM, List.forM_map]
      rfl
    rw [hchildren, walk, asides]
    cases path.isEmpty <;> cases he : o.expand <;> simp [Options.putExpanded, he]
    rfl
  | object m =>
    have hchildren : (Node.object m).children.forM (fun c =>
        walkChild o visit (Path.join o.inputDelimiter path c.1) (depth + 1) c.2) =
          walkMembers o visit path depth m.entries := by
      rw [walkMembers_eq, Node.children, Multimap.toPairs, forM_flatMap]
      simp only [List.forM_eq_forM, List.forM_map]
    rw [hchildren, walk, asides]
    cases he : o.expand <;> simp [Options.putExpanded, he]
    rfl
  | _ =>
    change (do o.checkDepth depth; visitNamed visit ⟨some _, path, depth⟩) = _
    simp only [asides, Node.children, perform_nil, pure_bind]
    exact congrArg (o.checkDepth depth >>= fun _ => ·) (bind_pure _).symm

theorem forM_congr {α : Type} {f g : α → Trace Unit} {as : List α} (h : ∀ a ∈ as, f a = g a) :
    as.forM f = as.forM g := by
  induction as with
  | nil => rfl
  | cons a as ih =>
    rw [List.forM_eq_forM, List.forM_cons, h a List.mem_cons_self]
    exact congrArg (g a >>= fun _ => ·) (ih fun b hb => h b (List.mem_cons_of_mem _ hb))

theorem checkDepth_eq_perform (depth : Nat) :
    o.checkDepth depth = perform o.maxDepth [.depth depth] := by
  by_cases h : o.maxDepth < depth
  · simp [Options.checkDepth, perform, Event.isWithin, Trace.halt, h, Nat.not_le.2 h]
  · simp [Options.checkDepth, perform, Event.isWithin, h, Nat.not_lt.1 h]
    rfl

/-- A walk whose visits perform the events of a place makes the stops of the pre-order. -/
theorem walk_eq_perform {rest : List Command} {next : Place → List Event}
    (hvisit : ∀ q, visit q = perform o.maxDepth (Stop.events rest next (.place q q.path "")))
    (path : String) (depth : Nat) (n : Node) :
    walk o visit path depth n = perform o.maxDepth
      ((preorder o.inputDelimiter o.expand path depth n).flatMap (Stop.events rest next)) := by
  induction n using Node.inductInner generalizing path depth with
  | step n ih =>
    have hnamed : visitNamed visit ⟨some n, path, depth⟩ = perform o.maxDepth
        ((if path.isEmpty then [] else [.place ⟨some n, path, depth⟩ path ""]).flatMap
          (Stop.events rest next)) := by
      rw [visitNamed]
      split
      · rfl
      · rw [List.flatMap_singleton]
        exact hvisit _
    have hasides : ((asides o.expand path n).map .event).flatMap (Stop.events rest next) =
        asides o.expand path n := by
      rw [List.flatMap_map]
      exact List.flatMap_singleton' _
    have hchildren : (n.children.forM fun c =>
        walkChild o visit (Path.join o.inputDelimiter path c.1) (depth + 1) c.2) =
          perform o.maxDepth ((n.children.flatMap fun c =>
            let childPath := Path.join o.inputDelimiter path c.1
            if c.2.isCompound then preorder o.inputDelimiter o.expand childPath (depth + 1) c.2
            else [.place ⟨some c.2, childPath, depth + 1⟩ childPath ""]).flatMap
              (Stop.events rest next)) := by
      rw [List.flatMap_assoc, perform_flatMap]
      refine forM_congr fun c hc => ?_
      rw [walkChild]
      split
      · exact ih c.2 (Node.mem_inner_of_mem_children hc) _ _
      · rw [List.flatMap_singleton]
        exact hvisit _
    rw [walk_eq, preorder_eq, List.flatMap_append, List.flatMap_append, List.flatMap_cons,
      perform_append, perform_append, perform_append, hasides, hchildren, hnamed,
      checkDepth_eq_perform, bind_assoc, bind_assoc]
    rfl

/-! ## The chain -/

section

variable {rest : List Command} {run : Place → Trace Unit} {next : Place → List Event} {p : Place}
  {command : Command}

theorem leadOn_eq_perform (hrun : ∀ q, run q = perform o.maxDepth (next q)) (q : Place)
    (path key : String) :
    leadOn rest run (.node q.node path key) q =
      perform o.maxDepth (Stop.events rest next (.place q path key)) := by
  rw [leadOn, Stop.events]
  split
  · rfl
  · exact hrun q

theorem step_of_leadsOn (hrun : ∀ q, run q = perform o.maxDepth (next q))
    (h : command.leadsOn = true) :
    step o rest run p command = (do
      perform o.maxDepth
        ((stops o.inputDelimiter o.expand p command).flatMap (Stop.events rest next))
      pure (p.depth + 1 + rest.length)) := by
  have hlead (q : Place) (path key : String) : leadOn rest run (.node q.node path key) q =
      perform o.maxDepth (Stop.events rest next (.place q path key)) :=
    leadOn_eq_perform hrun q path key
  cases command with
  | each =>
    rw [stops, List.flatMap_map, perform_flatMap, ← forM_congr fun c _ => hlead _ _ _]
    rfl
  | iterate =>
    rw [stops, List.flatMap_map, perform_flatMap, ← forM_congr fun c _ => hlead _ _ _]
    rfl
  | recurse =>
    rw [stops, step]
    refine congrArg (· >>= _) ?_
    cases p.node with
    | none => rfl
    | some n => exact walk_eq_perform (fun q => hlead q _ _) p.path p.depth n
  | select paths =>
    rw [stops, List.flatMap_map, perform_flatMap, ← forM_congr fun c _ => hlead _ _ _]
    rfl
  | _ => cases h

theorem step_of_reports (h : command.leadsOn = false) :
    step o rest run p command = (do
      perform o.maxDepth (reports o.inputDelimiter p command)
      pure (p.depth + 1)) := by
  have hput {α : Type} (f : α → Event) (r : α → Record) (as : List α)
      (hr : ∀ a, perform o.maxDepth [f a] = .put (r a)) :
      (as.forM fun a => .put (r a)) = perform o.maxDepth (as.map f) := by
    rw [← List.flatMap_singleton' (as.map f), List.flatMap_map, perform_flatMap]
    exact forM_congr fun a _ => (hr a).symm
  cases command with
  | keys => exact congrArg (· >>= _) (hput _ _ _ fun _ => rfl)
  | values => exact congrArg (· >>= _) (hput _ _ _ fun _ => rfl)
  | length | type | dump => rfl
  | _ => cases h

end

section

variable {command : Command} {rest : List Command} {p : Place}

theorem runChain_cons :
    runChain o (command :: rest) p = (do
      let reached ← evaluate o (command :: rest) p
      runChain o (rest.drop (reached - p.depth - 1)) p) := by
  rw [runChain, runFrom]
  simp only [runFrom_drop]
  rfl

theorem evaluate_of_leadsOn (hrest : ∀ q, runChain o rest q =
      perform o.maxDepth (events o.inputDelimiter o.expand rest q)) (h : command.leadsOn = true) :
    evaluate o (command :: rest) p = (do
      perform o.maxDepth (events o.inputDelimiter o.expand (command :: rest) p)
      pure (p.depth + (command :: rest).length)) := by
  rw [evaluate, first, checkDepth_eq_perform, step_of_leadsOn hrest h, events, if_pos h,
    perform_cons _ (List.flatMap ..), bind_assoc, List.length_cons, Nat.add_assoc,
    Nat.add_comm 1]

theorem evaluate_of_reports (h : command.leadsOn = false) :
    evaluate o (command :: rest) p = (do
      perform o.maxDepth (.depth p.depth :: reports o.inputDelimiter p command)
      pure (p.depth + 1)) := by
  rw [evaluate, first, checkDepth_eq_perform, step_of_reports h, perform_cons _ (reports ..),
    bind_assoc]

end

/-- What a chain comes to is what running it does. -/
theorem runChain_eq_perform (o : Options) (chain : List Command) (p : Place) :
    runChain o chain p = perform o.maxDepth (events o.inputDelimiter o.expand chain p) := by
  induction chain generalizing p with
  | nil => rfl
  | cons command rest ih =>
    rw [runChain_cons]
    cases h : command.leadsOn with
    | true =>
      rw [evaluate_of_leadsOn ih h, bind_assoc]
      simp [-perform_nil, pure_bind]
    | false =>
      have hevents : events o.inputDelimiter o.expand (command :: rest) p =
          .depth p.depth :: reports o.inputDelimiter p command ++
            events o.inputDelimiter o.expand rest p := by
        rw [events, if_neg (by simp [h])]
        rfl
      rw [evaluate_of_reports h, hevents, perform_append, ← ih, bind_assoc]
      simp

def requestEvents (d : Char) (expand : Bool) (root : Node) (request : Request) : List Event :=
  let node := root.lookup? d request.path
  if request.chain.isEmpty then [.node node "" request.path]
  else events d expand request.chain ⟨node, Path.normalize d request.path, 0⟩

theorem run_eq_perform (o : Options) (root : Node) (request : Request) :
    run o root request =
      perform o.maxDepth (requestEvents o.inputDelimiter o.expand root request) := by
  rw [run, requestEvents]
  split
  · rfl
  · exact runChain_eq_perform o _ _

theorem exists_of_mem_records {limit : Nat} {es : List Event} {r : Record}
    (h : r ∈ (perform limit es).records) : ∃ e ∈ es, e.record? = some r := by
  obtain ⟨e, he, hr⟩ := List.mem_filterMap.1 h
  exact ⟨e, List.takeWhile_subset _ he, hr⟩

/-! ## What holds of all events -/

section

variable {d : Char} {expand : Bool} {q : Event → Prop}

/-- At the stop `q` holds of what is put out, and `inv` of where the chain goes on. -/
def Stop.Keeps (q : Event → Prop) (inv : Place → Prop) : Stop → Prop
  | event e => q e
  | place p path key => q (.node p.node path key) ∧ inv p

/-- `inv` tells of each place what the rest of the chain there can rely on. -/
theorem forall_events_along (inv : List Command → Place → Prop)
    (hdepth : ∀ command rest p, inv (command :: rest) p → q (.depth p.depth))
    (hreports : ∀ command rest p, inv (command :: rest) p → ∀ e ∈ reports d p command, q e)
    (hstay : ∀ command rest p, inv (command :: rest) p → inv rest p)
    (hstops : ∀ command rest p, inv (command :: rest) p →
      ∀ s ∈ stops d expand p command, s.Keeps q (inv rest))
    {chain : List Command} {p : Place} (hp : inv chain p) : ∀ e ∈ events d expand chain p, q e := by
  induction chain generalizing p with
  | nil => nofun
  | cons command rest ih =>
    intro e he
    rw [events] at he
    rcases List.mem_cons.1 he with rfl | he
    · exact hdepth command rest p hp
    · split at he
      · obtain ⟨s, hs, he⟩ := List.mem_flatMap.1 he
        have hkeeps := hstops command rest p hp s hs
        cases s with
        | event e' => exact List.mem_singleton.1 he ▸ hkeeps
        | place p' path key =>
          rw [Stop.events] at he
          split at he
          · exact List.mem_singleton.1 he ▸ hkeeps.1
          · exact ih hkeeps.2 e he
      · rcases List.mem_append.1 he with he | he
        · exact hreports command rest p hp e he
        · exact ih (hstay command rest p hp) e he

theorem forall_events (inv : Place → Prop) {chain : List Command} (hdepth : ∀ depth, q (.depth depth))
    (hreports : ∀ command ∈ chain, ∀ p, inv p → ∀ e ∈ reports d p command, q e)
    (hstops : ∀ command ∈ chain, ∀ p, inv p → ∀ s ∈ stops d expand p command, s.Keeps q inv)
    {p : Place} (hp : inv p) : ∀ e ∈ events d expand chain p, q e := by
  refine forall_events_along (fun rest p => rest ⊆ chain ∧ inv p) (fun _ _ p _ => hdepth p.depth)
    (fun command rest p h => hreports command (h.1 List.mem_cons_self) p h.2)
    (fun command rest p h => ⟨List.subset_of_cons_subset h.1, h.2⟩)
    (fun command rest p h s hs => ?_) ⟨List.Subset.refl chain, hp⟩
  have hkeeps := hstops command (h.1 List.mem_cons_self) p h.2 s hs
  cases s with
  | event e => exact hkeeps
  | place p path key => exact ⟨hkeeps.1, List.subset_of_cons_subset h.1, hkeeps.2⟩

/-- `inv` tells what holds of a node under its display path, so many levels down. -/
theorem forall_preorder_at (inv : String → Nat → Node → Prop) {keep : Stop → Prop}
    (hdepth : ∀ path depth n, inv path depth n → keep (.event (.depth depth)))
    (hasides : ∀ path n, ∀ e ∈ asides expand path n, keep (.event e))
    (hplace : ∀ path depth n, inv path depth n → keep (.place ⟨some n, path, depth⟩ path ""))
    (hchild : ∀ path depth n, inv path depth n →
      ∀ c ∈ n.children, inv (Path.join d path c.1) (depth + 1) c.2)
    {path : String} {depth : Nat} {n : Node} (hn : inv path depth n) :
    ∀ s ∈ preorder d expand path depth n, keep s := by
  induction n using Node.inductInner generalizing path depth with
  | step n ih =>
    intro s hs
    rw [preorder_eq, List.mem_append, List.mem_append, List.mem_cons] at hs
    rcases hs with ((rfl | hs) | hs) | hs
    · exact hdepth path depth n hn
    · split at hs
      · cases hs
      · exact List.mem_singleton.1 hs ▸ hplace path depth n hn
    · obtain ⟨e, he, rfl⟩ := List.mem_map.1 hs
      exact hasides path n e he
    · obtain ⟨c, hc, hs⟩ := List.mem_flatMap.1 hs
      have hinv := hchild path depth n hn c hc
      simp only at hs
      split at hs
      · exact ih c.2 (Node.mem_inner_of_mem_children hc) hinv s hs
      · exact List.mem_singleton.1 hs ▸ hplace _ _ _ hinv

theorem forall_preorder (inv : String → Node → Prop) {keep : Stop → Prop}
    (hdepth : ∀ depth, keep (.event (.depth depth)))
    (hasides : ∀ path n, ∀ e ∈ asides expand path n, keep (.event e))
    (hplace : ∀ path depth n, inv path n → keep (.place ⟨some n, path, depth⟩ path ""))
    (hchild : ∀ path n, inv path n → ∀ c ∈ n.children, inv (Path.join d path c.1) c.2)
    {path : String} {depth : Nat} {n : Node} (hn : inv path n) :
    ∀ s ∈ preorder d expand path depth n, keep s :=
  forall_preorder_at (fun path _ n => inv path n) (fun _ depth _ _ => hdepth depth) hasides hplace
    (fun path _ n => hchild path n) hn

end

end Query

end ConfigTree
