import ConfigTree.Proofs.Query.Limit
import Mathlib.Data.List.Basic

/-! What a walk lists.  From a start with a display path it is the whole subtree, each node once and
before the nodes below it, as far as the depth limit lets it.  From a start without one the start is
left out, and so is an object or array that is reached by empty keys only: its display path is empty
as well. -/

namespace ConfigTree

namespace Path

theorem join_ne_empty {path : String} (h : path ≠ "") (d : Char) (key : String) :
    join d path key ≠ "" := by
  rw [join, String.isEmpty_eq_false_iff.2 h, if_neg Bool.false_ne_true]
  intro hjoin
  exact h (String.append_eq_empty_iff.1 (String.append_eq_empty_iff.1 hjoin).1).1

end Path

namespace Node

theorem map_snd_children (n : Node) : n.children.map Prod.snd = n.inner := by
  cases n with
  | array items =>
    rw [children, List.map_map]
    exact List.zipIdx_map_fst 0 items
  | object o =>
    rw [children, Multimap.toPairs, inner_object, Multimap.values, List.map_flatMap]
    refine List.flatMap_congr fun e _ => ?_
    rw [List.map_map]
    exact List.map_id _
  | _ => rfl

/-- A node and the nodes below it, each before those below itself. -/
def nodes (n : Node) : List Node := n :: n.inner.attach.flatMap fun m => nodes m.1
termination_by sizeOf n
decreasing_by exact sizeOf_lt_of_mem_inner m.2

theorem nodes_eq (n : Node) : n.nodes = n :: n.inner.flatMap nodes := by
  rw [nodes, ← List.flatMap_map, List.attach_map_subtype_val]

/-- The same nodes under their display paths. -/
def subtree (d : Char) (path : String) (n : Node) : List (String × Node) :=
  (path, n) :: n.children.attach.flatMap fun c => subtree d (Path.join d path c.1.1) c.1.2
termination_by sizeOf n
decreasing_by exact sizeOf_lt_of_mem_inner (mem_inner_of_mem_children c.2)

theorem subtree_eq (d : Char) (path : String) (n : Node) :
    n.subtree d path =
      (path, n) :: n.children.flatMap fun c => c.2.subtree d (Path.join d path c.1) := by
  have hattach (f : String × Node → List (String × Node)) :
      (n.children.attach.flatMap fun c => f c.1) = n.children.flatMap f := by
    rw [← List.flatMap_map, List.attach_map_subtype_val]
  rw [← hattach, subtree]

theorem map_snd_subtree (d : Char) (path : String) (n : Node) :
    (n.subtree d path).map Prod.snd = n.nodes := by
  induction n using inductInner generalizing path with
  | step n ih =>
    rw [subtree_eq, nodes_eq, List.map_cons, List.map_flatMap, ← map_snd_children,
      List.flatMap_map]
    refine congrArg (n :: ·) (List.flatMap_congr fun c hc => ?_)
    exact ih c.2 (mem_inner_of_mem_children hc) _

theorem fst_ne_empty_of_mem_subtree {d : Char} {path : String} {n : Node} {c : String × Node}
    (hpath : path ≠ "") (h : c ∈ n.subtree d path) : c.1 ≠ "" := by
  induction n using inductInner generalizing path with
  | step n ih =>
    rw [subtree_eq] at h
    rcases List.mem_cons.1 h with rfl | h
    · exact hpath
    · obtain ⟨e, he, h⟩ := List.mem_flatMap.1 h
      exact ih e.2 (mem_inner_of_mem_children he) (Path.join_ne_empty hpath d e.1) h

theorem subtree_of_scalar {n : Node} (h : n.isCompound = false) (d : Char) (path : String) :
    n.subtree d path = [(path, n)] := by
  have hchildren : n.children = [] := by
    rw [← List.map_eq_nil_iff, map_snd_children, inner_eq_nil_of_scalar h]
  rw [subtree_eq, hchildren, List.flatMap_nil]

end Node

namespace Query

/-- How a walk puts out a node. -/
def walkRecord (c : String × Node) : Record := .node (some c.2) c.1 ""

/-- A walk leaves out objects and arrays without a display path. -/
def isListed (c : String × Node) : Bool := !(c.1.isEmpty && c.2.isCompound)

section

variable {d : Char} {path : String} {depth limit : Nat} {n : Node} {next : Place → List Event}

theorem preorder_of_not_expand :
    preorder d false path depth n =
      .event (.depth depth) ::
        (if path.isEmpty then [] else [.place ⟨some n, path, depth⟩ path ""]) ++
        n.children.flatMap fun c =>
          let childPath := Path.join d path c.1
          if c.2.isCompound then preorder d false childPath (depth + 1) c.2
          else [.place ⟨some c.2, childPath, depth + 1⟩ childPath ""] := by
  have hasides : asides false path n = [] := by cases n <;> rfl
  rw [preorder_eq, hasides, List.map_nil, List.append_nil]

theorem filterMap_preorder :
    ((preorder d false path depth n).flatMap (Stop.events [] next)).filterMap Event.record? =
      (((if path.isEmpty then [] else [(path, n)]) ++
        n.children.flatMap fun c => c.2.subtree d (Path.join d path c.1)).filter isListed).map
          walkRecord := by
  induction n using Node.inductInner generalizing path depth with
  | step n ih =>
    rw [preorder_of_not_expand, List.flatMap_append, List.filterMap_append, List.filter_append,
      List.map_append]
    refine congrArg₂ (· ++ ·) ?_ ?_
    · cases hpath : path.isEmpty with
      | true => rfl
      | false =>
        have hlisted : isListed (path, n) = true := by simp [isListed, hpath]
        rw [if_neg Bool.false_ne_true, if_neg Bool.false_ne_true,
          List.filter_cons_of_pos hlisted]
        rfl
    · rw [List.flatMap_assoc, List.filterMap_flatMap, List.filter_flatMap, List.map_flatMap]
      refine List.flatMap_congr fun c hc => ?_
      simp only
      split
      · next hcompound =>
        rw [ih c.2 (Node.mem_inner_of_mem_children hc), Node.subtree_eq]
        split
        · next hempty =>
          have hlisted : ¬ isListed (Path.join d path c.1, c.2) = true := by
            simp [isListed, hempty, hcompound]
          rw [List.filter_cons_of_neg hlisted, List.nil_append]
        · rfl
      · next hscalar =>
        have hlisted : isListed (Path.join d path c.1, c.2) = true := by
          simp [isListed, hscalar]
        rw [Node.subtree_of_scalar (eq_false_of_ne_true hscalar),
          List.filter_cons_of_pos hlisted]
        rfl

end

theorem map_snd_descendants (d : Char) (root : Node) :
    (root.children.flatMap fun c => c.2.subtree d c.1).map Prod.snd = root.nodes.tail := by
  rw [Node.nodes_eq, List.tail_cons, List.map_flatMap, ← Node.map_snd_children, List.flatMap_map]
  exact List.flatMap_congr fun c _ => Node.map_snd_subtree d c.1 c.2

/-- From the root a walk lists every other node, but for the objects and arrays that have no display
path; there are none just if none stands under the empty key of the root. -/
theorem root_walk_lists_descendants_iff {o : Options} {root : Node} {path : String}
    (hpath : ∀ c ∈ path.toList, c = o.inputDelimiter) (hexpand : o.expand = false)
    (hdepth : root.depth ≤ o.maxDepth) :
    let walked := run o root ⟨path, [.recurse]⟩
    let descendants := root.children.flatMap fun c => c.2.subtree o.inputDelimiter c.1
    descendants.map Prod.snd = root.nodes.tail ∧
      walked = ⟨(descendants.filter isListed).map walkRecord, .ok ()⟩ ∧
      (walked.records = descendants.map walkRecord ↔
        ∀ c ∈ root.children, c.1 = "" → c.2.isCompound = false) := by
  intro walked descendants
  have hroot : (Path.cut o.inputDelimiter path).isRoot = true := Path.isRoot_cut_iff.2 hpath
  have hwalked : walked = ⟨(descendants.filter isListed).map walkRecord, .ok ()⟩ := by
    have hroom : root.depth + [Command.recurse].countP Command.isSelect ≤ o.maxDepth := hdepth
    have hevents : requestEvents o.inputDelimiter false root ⟨path, [.recurse]⟩ = .depth 0 ::
        (preorder o.inputDelimiter false "" 0 root).flatMap (Stop.events [] fun _ => []) := by
      simp only [requestEvents, Node.lookup?_of_isRoot hroot, Path.normalize_eq_empty_iff.2 hpath]
      rfl
    have hrun : walked = _ := run_eq_of_depth_le hroom
    rw [hrun, hexpand, hevents, List.filterMap_cons_none rfl, filterMap_preorder]
    rfl
  refine ⟨map_snd_descendants _ root, hwalked, ?_⟩
  rw [hwalked]
  refine ⟨fun h c hc hkey => ?_, fun h => ?_⟩
  · have hlength := congrArg List.length h
    rw [List.length_map, List.length_map, List.length_filter_eq_length_iff] at hlength
    have hlisted : isListed c = true :=
      hlength c (List.mem_flatMap.2 ⟨c, hc, Node.subtree_eq _ c.1 c.2 ▸ List.mem_cons_self⟩)
    simpa [isListed, hkey] using hlisted
  · have hlisted : ∀ c ∈ descendants, isListed c = true := by
      intro c hc
      obtain ⟨e, he, hc⟩ := List.mem_flatMap.1 hc
      by_cases hkey : e.1 = ""
      · rw [Node.subtree_of_scalar (h e he hkey), List.mem_singleton] at hc
        simp [isListed, hc, h e he hkey]
      · simp [isListed, Node.fst_ne_empty_of_mem_subtree hkey hc]
    rw [List.filter_eq_self.2 hlisted]

/-- An empty key below another one is no empty display path. -/
theorem root_walk_lists_descendants_iff_below_key :
    let root : Node := .object
      ⟨[("", .single (.int 7)), ("a", .single (.object ⟨[("", .single (.array [.null]))]⟩))]⟩
    let walked := run default root ⟨"..", [.recurse]⟩
    let descendants := root.children.flatMap fun c => c.2.subtree '.' c.1
    ((∀ c ∈ "..".toList, c = '.') ∧ (default : Options).expand = false ∧ root.depth ≤ 128) ∧
      walked.records = descendants.map walkRecord ∧ walked.records.length = 4 := by
  intro root walked descendants
  have hpath : ∀ c ∈ "..".toList, c = '.' := by simp
  have hthree : root.depth = 3 := rfl
  have hdepth : root.depth ≤ 128 := by omega
  have hkeys : ∀ c ∈ root.children, c.1 = "" → c.2.isCompound = false := by decide +kernel
  obtain ⟨-, -, hall⟩ := root_walk_lists_descendants_iff (o := default) hpath rfl hdepth
  exact ⟨⟨hpath, rfl, hdepth⟩, hall.2 hkeys, by decide +kernel⟩

/-- The object under the empty key of the root is not listed, though what is inside it is. -/
theorem root_walk_misses_object_under_empty_key :
    let root : Node := .object ⟨[("", .single (.object ⟨[("a", .single (.int 1))]⟩))]⟩
    let walked := run default root ⟨".", [.recurse]⟩
    let descendants := root.children.flatMap fun c => c.2.subtree '.' c.1
    (default : Options).expand = false ∧ root.depth ≤ 128 ∧
      walked.records = [.node (some (.int 1)) "a" ""] ∧ root.nodes.tail.length = 2 ∧
      walked.records ≠ descendants.map walkRecord := by
  intro root walked descendants
  have htwo : root.depth = 2 := rfl
  have hrecords : walked.records = [.node (some (.int 1)) "a" ""] := rfl
  have hnodes : root.nodes.tail.length = 2 := by
    simp [root, Node.nodes_eq, Multimap.values, Node.inner]
  refine ⟨rfl, by omega, hrecords, hnodes, fun h => ?_⟩
  have hlength := congrArg List.length h
  rw [hrecords, List.length_map, ← List.length_map Prod.snd, map_snd_descendants, hnodes] at hlength
  cases hlength

end Query

end ConfigTree
