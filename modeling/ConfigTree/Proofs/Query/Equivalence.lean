import ConfigTree.Proofs.Query.Labels
import ConfigTree.Proofs.Query.Simulation
import Mathlib.Data.List.Basic

/-! What the output of a chain does not tell apart.  Where no labels are shown, display paths have no
part in it, and where no key is repeated, `each` and `iterate` come to the same.  A missing node is
put out as null.  A walk is left out of all this: it looks at its display path, and passes over a
missing node. -/

namespace ConfigTree

/-- The same command, or `each` and `iterate` in the place of each other. -/
inductive Command.Swaps : Command → Command → Prop
  | same (c : Command) : Swaps c c
  | iterate : Swaps each iterate
  | each : Swaps iterate each

theorem Command.Swaps.leadsOn_eq {c c' : Command} (h : c.Swaps c') : c.leadsOn = c'.leadsOn := by
  cases h <;> rfl

theorem Node.firstChildren_eq_children {n : Node} (h : n.Unrepeated) :
    n.firstChildren = n.children := by
  cases n with
  | object o =>
    rw [firstChildren, children, Multimap.toPairs, List.map_eq_flatMap]
    refine List.flatMap_congr fun e he => ?_
    obtain ⟨key, n | ns⟩ := e
    · rfl
    · cases h _ he
  | _ => rfl

theorem Node.lookup?_null (d : Char) (path : String) :
    null.lookup? d path = none ∨ null.lookup? d path = some null := by
  rw [lookup?]
  cases Path.segments d path with
  | nil => exact .inr rfl
  | cons s ss => exact .inl rfl

namespace Query

variable {o : Options} {d : Char} {expand : Bool}

/-! ## Display paths -/

theorem labelText_eq (hkeys : o.showKeys = false) (path key path' key' : String) :
    o.labelText path key = o.labelText path' key' := by
  simp only [Options.labelText, hkeys, Bool.false_and, Bool.false_eq_true, if_false]

/-- The same node as deep, whatever the display paths; without repeated keys below it where commands
are swapped. -/
structure SameNode (swapped : Prop) (p p' : Place) : Prop where
  node : p.node = p'.node
  depth : p.depth = p'.depth
  noRepeats : swapped → ∀ n ∈ p.node, n.NoRepeats

/-- The same command or, where commands are swapped, one in the place of the other. -/
structure SameChoice (swapped : Prop) (c c' : Command) : Prop where
  swaps : c.Swaps c'
  agreed : c = c' ∨ swapped
  ne_recurse : c ≠ .recurse

section

variable {swapped : Prop} {c c' : Command} {p p' : Place}

theorem sameNode_reports (hkeys : o.showKeys = false) (hc : SameChoice swapped c c')
    (hp : SameNode swapped p p') :
    List.Forall₂ (Event.Alike o) (reports d p c) (reports d p' c') := by
  cases hc.swaps with
  | same =>
    cases c with
    | length | type =>
      rw [reports, reports, ← hp.node]
      exact .cons (alike_figure (labelText_eq hkeys ..) ..) .nil
    | keys =>
      rw [reports, reports, ← hp.node]
      exact forall₂_map fun _ _ => .record rfl rfl fun _ => rfl
    | values =>
      rw [reports, reports, ← hp.node]
      exact forall₂_map fun _ _ => alike_node (labelText_eq hkeys ..) ..
    | dump =>
      rw [reports, reports, ← hp.node]
      exact .cons (.record rfl rfl fun _ => rfl) .nil
    | _ => exact .nil
  | _ => exact .nil

theorem sameNode_stops (hkeys : o.showKeys = false) (hc : SameChoice swapped c c')
    (hp : SameNode swapped p p') :
    List.Forall₂ (Stop.Related (Event.Alike o) (SameNode swapped)) (stops d expand p c)
      (stops d expand p' c') := by
  obtain ⟨node, path, depth⟩ := p
  obtain ⟨node', path', depth'⟩ := p'
  obtain ⟨rfl, rfl, hrepeats⟩ := hp
  have hplace {child : Option Node} (hchild : swapped → ∀ m ∈ child, m.NoRepeats)
      (q key q' key' : String) : Stop.Related (Event.Alike o) (SameNode swapped)
        (.place ⟨child, q, depth + 1⟩ path key) (.place ⟨child, q', depth + 1⟩ path' key') :=
    .place (alike_node (labelText_eq hkeys ..) ..) ⟨rfl, rfl, hchild⟩
  have hfirst (hs : swapped) :
      node.elim [] Node.firstChildren = node.elim [] Node.children := by
    cases node with
    | none => rfl
    | some n => exact Node.firstChildren_eq_children (hrepeats hs n rfl).here
  have hbelow {e : String × Node} (he : e ∈ node.elim [] Node.children) (hs : swapped) :
      ∀ m ∈ some e.2, m.NoRepeats := by
    rintro _ ⟨⟩
    cases node with
    | none => cases he
    | some n => exact (hrepeats hs n rfl).inner (Node.mem_inner_of_mem_children he)
  cases hc.swaps with
  | same =>
    cases c with
    | each => exact forall₂_map fun e he => hplace (hbelow he) ..
    | iterate => exact forall₂_map fun e he => hplace (fun hs => hbelow (hfirst hs ▸ he) hs) ..
    | recurse => exact absurd rfl hc.ne_recurse
    | select paths =>
      refine forall₂_map fun sub _ => hplace (fun hs m hm => ?_) ..
      obtain ⟨n, hn, hlookup⟩ := Option.bind_eq_some_iff.1 hm
      exact (hrepeats hs n hn).follow? hlookup
    | _ => exact .nil
  | iterate =>
    rw [stops, stops, hfirst (hc.agreed.resolve_left (by simp))]
    exact forall₂_map fun e he => hplace (hbelow he) ..
  | each =>
    rw [stops, stops, hfirst (hc.agreed.resolve_left (by simp))]
    exact forall₂_map fun e he => hplace (hbelow he) ..

theorem simulation_sameNode (hkeys : o.showKeys = false) :
    Simulation d expand (Event.Alike o) (SameChoice swapped) (SameNode swapped) where
  leadsOn hc := hc.swaps.leadsOn_eq
  depth hp := hp.depth ▸ .depth _
  reports hc hp := sameNode_reports hkeys hc hp
  stops hc hp := sameNode_stops hkeys hc hp

end

/-- Where no labels are shown and no walk is made, a run is told by the node it starts at and how
deep that is: the display path has no part in it, and where no key is repeated below the node, nor
has the choice between `each` and `iterate`. -/
theorem each_and_iterate_agree (hkeys : o.showKeys = false) {chain chain' : List Command}
    (hrecurse : .recurse ∉ chain) (hchain : List.Forall₂ Command.Swaps chain chain')
    (node : Option Node)
    (hrepeats : chain ≠ chain' → ∀ n ∈ node, n.NoRepeats) (path path' : String) (depth : Nat) :
    let p : Place := ⟨node, path, depth⟩
    let p' : Place := ⟨node, path', depth⟩
    Alike o (runChain o chain p) (runChain o chain' p') ∧
      Alike o (evaluate o chain p) (evaluate o chain' p') := by
  intro p p'
  have hp : SameNode (chain ≠ chain') p p' := ⟨rfl, rfl, hrepeats⟩
  have hchoice : List.Forall₂ (SameChoice (chain ≠ chain')) chain chain' := by
    have hwalks : ∀ c ∈ chain, c ≠ .recurse := fun c hc => ne_of_mem_of_not_mem hc hrecurse
    by_cases hsame : chain = chain'
    · rw [← hsame, List.forall₂_same]
      exact fun c hc => ⟨.same c, .inl rfl, hwalks c hc⟩
    · exact ((List.forall₂_and_left _ _).2 ⟨hwalks, hchain⟩).imp fun c c' h => ⟨h.2, .inr hsame, h.1⟩
  exact ⟨(simulation_sameNode hkeys).alike_runChain hchoice hp,
    (simulation_sameNode hkeys).alike_evaluate hchoice hp⟩

/-- Below an array in an object, with one of the two commands for the other twice. -/
theorem each_and_iterate_agree_below_array :
    let node : Node := .object
      ⟨[("a", .single (.array [.object ⟨[("b", .single (.int 1))]⟩, .null]))]⟩
    let rest : List Command := [.select [".b", "."], .type, .keys]
    let p : Place := ⟨some node, "", 0⟩
    let p' : Place := ⟨some node, "x.y", 0⟩
    let run := runChain default (.each :: .iterate :: rest) p
    let run' := runChain default (.iterate :: .each :: rest) p'
    ((default : Options).showKeys = false ∧ .recurse ∉ Command.each :: .iterate :: rest ∧
      List.Forall₂ Command.Swaps (.each :: .iterate :: rest) (.iterate :: .each :: rest) ∧
      node.NoRepeats) ∧
    (Alike default run run' ∧ Alike default (evaluate default (.each :: .iterate :: rest) p)
      (evaluate default (.iterate :: .each :: rest) p')) ∧
    (run'.answer default).bytes = Text.bytes "int\nobject\nb\nnull\nnull\n".toList := by
  intro node rest p p' run run'
  have hrecurse : .recurse ∉ Command.each :: .iterate :: rest := by decide
  have hchain : List.Forall₂ Command.Swaps (.each :: .iterate :: rest)
      (.iterate :: .each :: rest) :=
    .cons .iterate (.cons .each (List.forall₂_same.2 fun c _ => .same c))
  have hrepeats : node.NoRepeats := by decide +kernel
  refine ⟨⟨rfl, hrecurse, hchain, hrepeats⟩, ?_, by decide +kernel⟩
  refine each_and_iterate_agree rfl hrecurse hchain (some node) (fun _ n hn => ?_) "" "x.y" 0
  cases hn
  exact hrepeats

/-! ## Missing nodes -/

/-- No node at the first place; none or null at the second, under the same display path and as
deep. -/
structure Lacks (p p' : Place) : Prop where
  missing : p.node = none
  null : p'.node = none ∨ p'.node = some .null
  path : p.path = p'.path
  depth : p.depth = p'.depth

theorem alike_null {n : Option Node} (h : n = none ∨ n = some .null) (path key : String) :
    Event.Alike o (.node none path key) (.node n path key) := by
  refine .record rfl rfl fun s => ?_
  rcases h with rfl | rfl <;> rfl

theorem lacks_reports {c : Command} {p p' : Place} (hp : Lacks p p') :
    List.Forall₂ (Event.Alike o) (reports d p c) (reports d p' c) := by
  obtain ⟨_, path, depth⟩ := p
  obtain ⟨n, _, _⟩ := p'
  obtain ⟨rfl, hn, rfl, rfl⟩ := hp
  have hrecord {e e' : Event} {r : Record} (he : e.record? = some r) (he' : e'.record? = some r) :
      List.Forall₂ (Event.Alike o) [e] [e'] := .cons (.record he he' fun _ => rfl) .nil
  rcases hn with rfl | rfl <;> cases c with
  | length | type | dump => exact hrecord rfl rfl
  | _ => exact .nil

theorem lacks_stops {c : Command} (hc : c ≠ .recurse) {p p' : Place} (hp : Lacks p p') :
    List.Forall₂ (Stop.Related (Event.Alike o) Lacks) (stops d expand p c)
      (stops d expand p' c) := by
  obtain ⟨_, path, depth⟩ := p
  obtain ⟨n, _, _⟩ := p'
  obtain ⟨rfl, hn, rfl, rfl⟩ := hp
  cases c with
  | each | iterate => rcases hn with rfl | rfl <;> exact .nil
  | recurse => exact absurd rfl hc
  | select paths =>
    refine forall₂_map fun sub _ => ?_
    have hsub : n.bind (Node.lookup? d sub) = none ∨
        n.bind (Node.lookup? d sub) = some .null := by
      rcases hn with rfl | rfl
      · exact .inl rfl
      · exact Node.lookup?_null d sub
    exact .place (alike_null hsub ..) ⟨rfl, hsub, rfl, rfl⟩
  | _ => exact .nil

theorem simulation_lacks :
    Simulation d expand (Event.Alike o) (fun c c' => c ≠ .recurse ∧ c = c') Lacks where
  leadsOn hc := congrArg Command.leadsOn hc.2
  depth hp := hp.depth ▸ .depth _
  reports hc hp := hc.2 ▸ lacks_reports hp
  stops hc hp := hc.2 ▸ lacks_stops hc.1 hp

/-- Where no walk is made, a run at a missing node is a run at null. -/
theorem missing_node_runs_as_null (o : Options) {chain : List Command} (hrecurse : .recurse ∉ chain)
    (path : String) (depth : Nat) :
    let missing : Place := ⟨none, path, depth⟩
    let null : Place := ⟨some .null, path, depth⟩
    Alike o (runChain o chain missing) (runChain o chain null) ∧
      Alike o (evaluate o chain missing) (evaluate o chain null) := by
  intro missing null
  have hp : Lacks missing null := ⟨rfl, .inr rfl, rfl, rfl⟩
  have hchain : List.Forall₂ (fun c c' => c ≠ Command.recurse ∧ c = c') chain chain :=
    List.forall₂_same.2 fun c hc => ⟨ne_of_mem_of_not_mem hc hrecurse, rfl⟩
  exact ⟨simulation_lacks.alike_runChain hchain hp, simulation_lacks.alike_evaluate hchain hp⟩

/-- A sub-path of nothing but the delimiter stays at null, and has nothing to stay at where there is no
node. -/
theorem missing_node_runs_as_null_at_sub_paths :
    let o : Options := { (default : Options) with format := .compactJson, showKeys := true }
    let chain : List Command := [.length, .select [".", ".a"]]
    let missing : Place := ⟨none, "x", 0⟩
    let null : Place := ⟨some .null, "x", 0⟩
    .recurse ∉ chain ∧
      (Alike o (runChain o chain missing) (runChain o chain null) ∧
        Alike o (evaluate o chain missing) (evaluate o chain null)) ∧
      ((runChain o chain missing).answer o).bytes =
        Text.bytes "x=0\nx.=null\nx.a=null\n".toList := by
  intro o chain missing null
  have hrecurse : .recurse ∉ chain := by decide
  exact ⟨hrecurse, missing_node_runs_as_null o hrecurse "x" 0, by decide +kernel⟩

end Query

end ConfigTree
