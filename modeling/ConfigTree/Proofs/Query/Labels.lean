import ConfigTree.Proofs.Edit.Update
import ConfigTree.Proofs.Query.Events
import ConfigTree.Proofs.Text.Digits
import ConfigTree.Query.Output

/-! Labels lead back.  Where no key of a tree is repeated, empty or cut by the delimiter, the label of
a record is a path to the node that is put out or measured.  What carries this through a chain is that
the display path of every place leads to the node there, or nowhere if there is none. -/

namespace ConfigTree

namespace Path

variable {d : Char}

theorem segments_join (path key : String) :
    segments d (join d path key) = segments d path ++ segments d key := by
  rw [join]
  split
  · next h =>
    rw [String.isEmpty_iff.1 h]
    rfl
  · simp [segments_eq_map_pieces, pieces_append_cons]

theorem segments_singleton_append (key : String) :
    segments d (String.singleton d ++ key) = segments d key := by
  simp [segments_eq_map_pieces, pieces_cons_self]

theorem segments_eq_singleton {key : String} (hkey : key ≠ "") (hd : d ∉ key.toList) :
    segments d key = [key] := by
  rw [segments_eq_map_pieces, pieces_eq_singleton hd (mt String.toList_eq_nil_iff.1 hkey),
    List.map_singleton, String.ofList_toList]

end Path

namespace Node

variable {d : Char} {root n : Node}

theorem lookup?_join (path key : String) :
    root.lookup? d (Path.join d path key) = (root.lookup? d path).bind (lookup? d key) := by
  rw [lookup?, Path.segments_join, follow?_append]
  rfl

theorem Everywhere.follow? {p : Node → Prop} (h : root.Everywhere p) {segments : List String}
    (hn : root.follow? segments = some n) : n.Everywhere p := by
  induction segments generalizing root with
  | nil =>
    cases hn
    exact h
  | cons s ss ih =>
    obtain ⟨child, hchild, hn⟩ := Option.bind_eq_some_iff.1 hn
    exact ih (h.inner (mem_inner_of_child? hchild)) hn

theorem lookup?_normalize (path : String) :
    root.lookup? d (Path.normalize d path) = root.lookup? d path := by
  rw [lookup?, Path.segments_normalize, lookup?]

/-- Each child stands alone under its key, and the key is one segment of a path.  An array has no
more items than a machine word can count. -/
def Labelled (d : Char) : Node → Prop
  | object o => o.KeysDistinct ∧ ∀ e ∈ o.entries, e.2.isRepeated = false ∧ e.1 ≠ "" ∧ d ∉ e.1.toList
  | array items => items.length ≤ 2 ^ 64
  | _ => True

instance (d : Char) : DecidablePred (Labelled d)
  | object o => inferInstanceAs (Decidable (o.KeysDistinct ∧ ∀ e ∈ o.entries, _))
  | array items => inferInstanceAs (Decidable (items.length ≤ 2 ^ 64))
  | null | bool _ | int _ | float _ | str _ | time _ | userdata _ =>
    inferInstanceAs (Decidable True)

/-- The place of an item, as it is displayed, is read as that place. -/
theorem index?_ofNat {i : Nat} (h : i < 2 ^ 64) :
    index? (String.ofList (Text.ofNat i)) = some i := by
  rw [index?, String.toList_ofList]
  exact Text.unsigned?_ofNat h

/-- The display key of a child leads to it, in one step. -/
theorem lookup?_of_mem_children (hd : d.isDigit = false) (h : n.Labelled d) {c : String × Node}
    (hc : c ∈ n.children) : n.lookup? d c.1 = some c.2 := by
  have hstep (hsegments : Path.segments d c.1 = [c.1]) (hchild : n.child? c.1 = some c.2) :
      n.lookup? d c.1 = some c.2 := by
    rw [lookup?, hsegments, Node.follow?, hchild]
    rfl
  cases n with
  | array items =>
    obtain ⟨⟨item, i⟩, hi, rfl⟩ := List.mem_map.1 hc
    have hitem := List.mem_zipIdx_iff_getElem?.1 hi
    have hlt : i < items.length := (List.getElem?_eq_some_iff.1 hitem).1
    refine hstep (Path.segments_eq_singleton ?_ ?_) ?_
    · exact mt String.ofList_eq_empty_iff.1 (Text.ofNat_ne_nil i)
    · rw [String.toList_ofList]
      intro hmem
      rw [Text.isDigit_of_mem_ofNat hmem] at hd
      cases hd
    · rw [child?, index?_ofNat (Nat.lt_of_lt_of_le hlt h)]
      exact hitem
  | object o =>
    obtain ⟨e, he, hc⟩ := List.mem_flatMap.1 hc
    obtain ⟨m, hm, rfl⟩ := List.mem_map.1 hc
    obtain ⟨hunrepeated, hkey, hdelimiter⟩ := h.2 e he
    refine hstep (Path.segments_eq_singleton hkey hdelimiter) ?_
    have hmember : o.member? e.1 = some e.2 := Multimap.lookup_eq_some_of_mem h.1 he
    obtain ⟨key, n | ns⟩ := e
    · cases List.mem_singleton.1 hm
      rw [child?, Multimap.get?, hmember]
      rfl
    · cases hunrepeated
  | _ => cases hc

end Node

namespace Query

variable {o : Options} {root : Node}

theorem segments_label (hdelimiter : o.outputDelimiter = o.inputDelimiter) (path key : String) :
    Path.segments o.inputDelimiter (o.label path key) =
      (Path.pieces o.inputDelimiter (path.toList ++ key.toList)).map String.ofList := by
  have hsame : (fun c => if c = o.inputDelimiter then o.outputDelimiter else c) = id := by
    funext c
    rw [hdelimiter]
    split
    · next h => exact h.symm
    · rfl
  rw [Options.label, hsame, List.map_id, Path.segments_eq_map_pieces, String.toList_ofList,
    Path.pieces_dropLeading]

theorem lookup?_label (hdelimiter : o.outputDelimiter = o.inputDelimiter) (path : String) :
    root.lookup? o.inputDelimiter (o.label path "") = root.lookup? o.inputDelimiter path := by
  rw [Node.lookup?, segments_label hdelimiter, String.toList_empty, List.append_nil]
  rfl

/-- A label whose key starts with the delimiter goes on from the display path. -/
theorem lookup?_label_of_head? (hdelimiter : o.outputDelimiter = o.inputDelimiter) (path : String)
    {key : String} (hkey : key.toList.head? = some o.inputDelimiter) :
    root.lookup? o.inputDelimiter (o.label path key) =
      (root.lookup? o.inputDelimiter path).bind (Node.lookup? o.inputDelimiter key) := by
  rw [Node.lookup?, segments_label hdelimiter, Path.pieces_append_of_head? hkey, List.map_append,
    Node.follow?_append]
  rfl

/-- The label of what is put out leads to the node that is put out or measured. -/
def Event.LabelLeads (o : Options) (root : Node) : Event → Prop
  | node n path k => root.lookup? o.inputDelimiter (o.label path k) = n
  | figure n path _ => root.lookup? o.inputDelimiter (o.label path "") = n
  | depth _ | key _ | listing _ => True

/-- The display path leads to the node at the place. -/
def Place.Leads (d : Char) (root : Node) (p : Place) : Prop := root.lookup? d p.path = p.node

section

variable (hdelimiter : o.outputDelimiter = o.inputDelimiter)
  (hdigit : o.inputDelimiter.isDigit = false)
  (hroot : root.Everywhere (Node.Labelled o.inputDelimiter))

include hdelimiter hdigit hroot

theorem leads_child {p : Place} (hp : p.Leads o.inputDelimiter root) {c : String × Node}
    (hc : c ∈ p.node.elim [] Node.children) (depth : Nat) :
    Event.LabelLeads o root
        (.node (some c.2) p.path (String.singleton o.inputDelimiter ++ c.1)) ∧
      Place.Leads o.inputDelimiter root
        ⟨some c.2, Path.join o.inputDelimiter p.path c.1, depth⟩ := by
  obtain ⟨node, path, _⟩ := p
  cases node with
  -- Nothing is below a place without a node.
  | none => cases hc
  | some n =>
    have hpath : root.lookup? o.inputDelimiter path = some n := hp
    have hchild : n.lookup? o.inputDelimiter c.1 = some c.2 :=
      Node.lookup?_of_mem_children hdigit (hroot.follow? hpath).here hc
    refine ⟨?_, ?_⟩
    · rw [Event.LabelLeads, lookup?_label_of_head? hdelimiter path (by simp), hpath,
        Option.bind_some, Node.lookup?, Path.segments_singleton_append]
      exact hchild
    · rw [Place.Leads, Node.lookup?_join, hpath]
      exact hchild

theorem leads_reports {p : Place} (hp : p.Leads o.inputDelimiter root) (command : Command) :
    ∀ e ∈ reports o.inputDelimiter p command, e.LabelLeads o root := by
  intro e he
  cases command with
  | length | type =>
    cases List.mem_singleton.1 he
    exact (lookup?_label hdelimiter p.path).trans hp
  | keys =>
    obtain ⟨c, -, rfl⟩ := List.mem_map.1 he
    trivial
  | values =>
    obtain ⟨c, hc, rfl⟩ := List.mem_map.1 he
    exact (leads_child hdelimiter hdigit hroot hp hc 0).1
  | dump =>
    cases List.mem_singleton.1 he
    trivial
  | _ => cases he

theorem leads_preorder {path : String} {depth : Nat} {n : Node}
    (hn : root.lookup? o.inputDelimiter path = some n) :
    ∀ s ∈ preorder o.inputDelimiter false path depth n,
      s.Keeps (Event.LabelLeads o root) (Place.Leads o.inputDelimiter root) := by
  refine forall_preorder (fun path n => root.lookup? o.inputDelimiter path = some n)
    (fun _ => trivial) (fun path n e he => ?_) (fun path depth n hn => ⟨?_, hn⟩)
    (fun path n hn c hc => (leads_child hdelimiter hdigit hroot (p := ⟨some n, path, 0⟩) hn hc 0).2)
    hn
  · cases n <;> cases he
  · exact (lookup?_label hdelimiter path).trans hn

theorem leads_stops {p : Place} (hp : p.Leads o.inputDelimiter root) {command : Command}
    (hiterate : command ≠ .iterate) (hselect : ∀ paths, command = .select paths →
      ∀ path ∈ paths, path.toList.head? = some o.inputDelimiter) :
    ∀ s ∈ stops o.inputDelimiter false p command,
      s.Keeps (Event.LabelLeads o root) (Place.Leads o.inputDelimiter root) := by
  intro s hs
  cases command with
  | each =>
    obtain ⟨c, hc, rfl⟩ := List.mem_map.1 hs
    exact leads_child hdelimiter hdigit hroot hp hc _
  | iterate => exact absurd rfl hiterate
  | recurse =>
    obtain ⟨node, path, _⟩ := p
    cases node with
    | none => cases hs
    | some n => exact leads_preorder hdelimiter hdigit hroot hp s hs
  | select paths =>
    obtain ⟨path, hpath, rfl⟩ := List.mem_map.1 hs
    have hhead := hselect paths rfl path hpath
    have hnode : root.lookup? o.inputDelimiter p.path = p.node := hp
    refine ⟨?_, ?_⟩
    · rw [Event.LabelLeads, lookup?_label_of_head? hdelimiter p.path hhead, hnode]
    · rw [Place.Leads, Node.lookup?_join, hnode]
      exact Option.bind_congr fun _ _ => Node.lookup?_normalize path
  | _ => cases hs

end

/-- Where children can be told apart by their keys, labels are paths: what stands under a label, or
is measured under it, is what the label leads to in the document. -/
theorem label_leads_to_what_is_shown {request : Request}
    (hroot : root.Everywhere (Node.Labelled o.inputDelimiter))
    (hdigit : o.inputDelimiter.isDigit = false)
    (hdelimiter : o.outputDelimiter = o.inputDelimiter) (hexpand : o.expand = false)
    (hiterate : .iterate ∉ request.chain)
    (hselect : ∀ paths, .select paths ∈ request.chain →
      ∀ path ∈ paths, path.toList.head? = some o.inputDelimiter) :
    run o root request =
        perform o.maxDepth (requestEvents o.inputDelimiter false root request) ∧
      ∀ e ∈ requestEvents o.inputDelimiter false root request, e.LabelLeads o root := by
  refine ⟨hexpand ▸ run_eq_perform o root request, fun e he => ?_⟩
  rw [requestEvents] at he
  split at he
  · cases List.mem_singleton.1 he
    rw [Event.LabelLeads, Node.lookup?, segments_label hdelimiter]
    rfl
  · refine forall_events (Place.Leads o.inputDelimiter root) (fun _ => trivial)
      (fun command _ p hp => leads_reports hdelimiter hdigit hroot hp command)
      (fun command hcommand p hp => leads_stops hdelimiter hdigit hroot hp ?_ ?_) ?_ e he
    · rintro rfl
      exact hiterate hcommand
    · rintro paths rfl
      exact hselect paths hcommand
    · exact Node.lookup?_normalize request.path

/-- The kinds at two paths from each item of an array, one of which leads nowhere. -/
theorem label_leads_to_what_is_shown_at_select :
    let root : Node := .object ⟨[("a", .single (.array [.object ⟨[("b", .single (.int 1))]⟩]))]⟩
    let request : Request := ⟨"..a", [.each, .select [".b", ".gone."], .type]⟩
    let shown : List Event := [.depth 0, .depth 1, .depth 2, .figure (some (.int 1)) ".a.0.b" "int",
      .depth 2, .figure none ".a.0.gone" "null"]
    root.Everywhere (Node.Labelled '.') ∧ requestEvents '.' false root request = shown ∧
      run default root request = perform 128 shown ∧ ∀ e ∈ shown, e.LabelLeads default root := by
  intro root request shown
  have hroot : root.Everywhere (Node.Labelled '.') := by decide +kernel
  have hshown : requestEvents '.' false root request = shown := by
    simp only [root, request, shown]
    rfl
  have hselect : ∀ paths, .select paths ∈ request.chain → ∀ path ∈ paths,
      path.toList.head? = some '.' := by
    intro paths hpaths
    simp only [request, List.mem_cons, List.not_mem_nil, Command.select.injEq, reduceCtorEq,
      false_or, or_false] at hpaths
    rw [hpaths]
    decide
  have hiterate : .iterate ∉ request.chain := by decide
  obtain ⟨hrun, hleads⟩ := label_leads_to_what_is_shown (o := default) hroot (by decide) rfl rfl
    hiterate hselect
  exact ⟨hroot, hshown, hshown ▸ hrun, hshown ▸ hleads⟩

end Query

end ConfigTree
