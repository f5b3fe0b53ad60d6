import ConfigTree.Document
import ConfigTree.Json.Printer
import ConfigTree.Proofs.Value

/-! The two ways to read a repeated key.  A document that is read with every value of a repeated key
is also read with the last value alone, and its tree is then the same but that each repeated key
holds its last value, in the place where the key first stood. -/

universe u

namespace ConfigTree

namespace Member

variable {α : Type u} [Inhabited α]

/-- The value that was seen last, which every key in use has. -/
def last (m : Member α) : α := m.values.getLast?.getD default

@[simp] theorem last_push (m : Member α) (a : α) : (m.push a).last = a := by simp [last]

theorem last_eq_default_or_mem (m : Member α) : m.last = default ∨ m.last ∈ m.values := by
  rw [last]
  cases h : m.values.getLast? with
  | none => exact .inl rfl
  | some a => exact .inr (List.mem_of_getLast? h)

end Member

namespace Multimap

variable {α : Type u} [Inhabited α]

/-- Every key with its last value alone. -/
def latest (o : Multimap α) : Multimap α := ⟨o.entries.map fun e => (e.1, .single e.2.last)⟩

theorem latest_push (o : Multimap α) (key : String) (a : α) :
    (o.push key a).latest = o.latest.insert key a :=
  congrArg Multimap.mk (map_upsert (g := fun m => .single m.last)
    (fun m => congrArg Member.single (m.last_push a)) (.single a) key o.entries)

/-- Gathering every value and then keeping the last ones is letting the last ones win. -/
theorem latest_ofPairs (pairs : List (String × α)) : (ofPairs pairs).latest = ofLatest pairs :=
  (List.foldl_hom latest fun o p => (latest_push o p.1 p.2).symm).symm

theorem eq_default_or_mem_of_mem_values_latest {o : Multimap α} {a : α} (h : a ∈ o.latest.values) :
    a = default ∨ a ∈ o.values := by
  obtain ⟨e', he', ha⟩ := mem_values_iff.1 h
  obtain ⟨e, he, rfl⟩ := List.mem_map.1 he'
  obtain rfl : a = e.2.last := List.mem_singleton.1 ha
  exact e.2.last_eq_default_or_mem.imp_right (mem_values_of_mem he)

end Multimap

namespace Node

mutual

/-- Every repeated key of the tree holds its last value alone, in its place. -/
def collapse : Node → Node
  | array items => array (collapseItems items)
  | object ⟨entries⟩ => object ⟨collapseEntries entries⟩
  | n => n
termination_by structural n => n

def collapseItems : List Node → List Node
  | [] => []
  | n :: ns => collapse n :: collapseItems ns
termination_by structural ns => ns

def collapseEntries : List (String × Member Node) → List (String × Member Node)
  | [] => []
  | (k, .single n) :: es => (k, .single (collapse n)) :: collapseEntries es
  | (k, .repeated ns) :: es =>
    (k, .single (Member.repeated (collapseItems ns)).last) :: collapseEntries es
termination_by structural es => es

end

theorem collapseItems_eq_map (ns : List Node) : collapseItems ns = ns.map collapse := by
  induction ns with
  | nil => rfl
  | cons n ns ih => rw [collapseItems, ih, List.map_cons]

theorem collapseEntries_eq_map (es : List (String × Member Node)) :
    collapseEntries es = es.map fun e => (e.1, .single (e.2.map collapse).last) := by
  induction es with
  | nil => rfl
  | cons e es ih =>
    obtain ⟨k, n | ns⟩ := e
    · rw [collapseEntries, ih, List.map_cons]
      rfl
    · rw [collapseEntries, ih, List.map_cons, collapseItems_eq_map]
      rfl

theorem collapse_array (items : List Node) :
    (array items).collapse = array (items.map collapse) := by
  rw [collapse, collapseItems_eq_map]

theorem collapse_object (o : Multimap Node) :
    (object o).collapse = object (o.map collapse).latest := by
  rw [collapse, collapseEntries_eq_map, Multimap.latest, Multimap.map, List.map_map]
  rfl

/-- Values that are passed over can only have made the tree deeper. -/
theorem depth_collapse_le (n : Node) : n.collapse.depth ≤ n.depth := by
  induction n using inductInner with
  | step n ih =>
    cases hn : n.isCompound with
    | false =>
      have hself : n.collapse = n := by
        cases n with
        | array items => cases hn
        | object o => cases hn
        | _ => rfl
      exact Nat.le_of_eq (congrArg depth hself)
    | true =>
      obtain ⟨k, hk⟩ := Nat.exists_eq_add_one.2 (depth_pos_iff.2 hn)
      have hinner : ∀ m ∈ n.inner, m.collapse.depth ≤ k := fun m hm =>
        Nat.le_trans (ih m hm) (depth_le_succ_iff.1 (Nat.le_of_eq hk) m hm)
      rw [hk, depth_le_succ_iff]
      intro m hm
      cases n with
      | array items =>
        rw [collapse_array] at hm
        obtain ⟨item, hitem, rfl⟩ := List.mem_map.1 hm
        exact hinner item hitem
      | object o =>
        rw [collapse_object] at hm
        rcases Multimap.eq_default_or_mem_of_mem_values_latest hm with rfl | hm
        · exact Nat.zero_le k
        · rw [Multimap.values_map] at hm
          obtain ⟨n, hn, rfl⟩ := List.mem_map.1 hm
          exact hinner n hn
      | _ => cases hn

end Node

/-- Keeping every value of a repeated key, and then only the last, is keeping only the last. -/
theorem Value.collapse_toNode (options : ReadOptions) (v : Value) :
    (v.toNode { options with keepRepeats := true }).collapse =
      v.toNode { options with keepRepeats := false } := by
  induction v using Value.inductInner with
  | step v ih =>
    cases v with
    | seq items =>
      rw [toNode_seq, toNode_seq, Node.collapse_array, List.map_map]
      exact congrArg Node.array (List.map_congr_left ih)
    | map pairs =>
      rw [toNode_map, toNode_map, Node.collapse_object]
      simp only [ReadOptions.gather, if_true, Bool.false_eq_true, if_false]
      rw [Multimap.map_ofPairs, Multimap.latest_ofPairs, List.map_map]
      refine congrArg (Node.object ∘ Multimap.ofLatest) (List.map_congr_left fun p hp => ?_)
      exact congrArg (_, ·) (ih p.2 (List.mem_map_of_mem hp))
    | _ => rfl

/-- Where a document is read with all values of its repeated keys, it is read in the same dialect
with the last ones alone, and its tree is collapsed to those. -/
theorem Document.parse_last_values {text source : String} {options : ReadOptions}
    {document : Document}
    (h : parse text source { options with keepRepeats := true } = .ok document) :
    parse text source { options with keepRepeats := false } =
      .ok ⟨document.root.collapse, document.dialect⟩ := by
  unfold parse at h ⊢
  simp only at h ⊢
  split at h
  · next hblank =>
    cases h
    rw [if_pos hblank]
    rfl
  · next hblank =>
    rw [if_neg hblank]
    cases hread : (Dialect.detect text).read text with
    | error message =>
      rw [hread] at h
      cases h
    | ok v =>
      simp only [hread] at h ⊢
      split at h
      · cases h
      · next hdepth =>
        cases h
        have hle : (v.toNode { options with keepRepeats := false }).depth ≤ options.maxDepth := by
          rw [← Value.collapse_toNode]
          exact Nat.le_trans (Node.depth_collapse_le _) (Nat.le_of_not_lt hdepth)
        rw [if_neg (Nat.not_lt.2 hle), Value.collapse_toNode]

/-- Two keys that are one in lower case, with repeated keys both in a value that is passed over and
in the one that is kept. -/
theorem Document.parse_last_values_of_folded_keys :
    let text := "\x7b\"a\":[\x7b\"x\":1,\"X\":[]\x7d],\"b\":0,\"A\":\x7b\"x\":3,\"x\":4\x7d\x7d"
    let options : ReadOptions := ⟨true, true, 4⟩
    let print (n : Node) := Json.print n.toValue
    let every := "\x7b\"a\":[[\x7b\"x\":[1,[]]\x7d],\x7b\"x\":[3,4]\x7d],\"b\":0\x7d"
    let last := "\x7b\"a\":\x7b\"x\":4\x7d,\"b\":0\x7d"
    ∃ document,
      parse text "file" { options with keepRepeats := true } = .ok document ∧
      print document.root = every ∧ print document.root.collapse = last ∧
      parse text "file" { options with keepRepeats := false } =
        .ok ⟨document.root.collapse, document.dialect⟩ := by
  intro text options print every last
  have hprint : ((parse text "file" { options with keepRepeats := true }).toOption.map fun d =>
      (print d.root, print d.root.collapse)) = some (every, last) := by decide +kernel
  cases hread : parse text "file" { options with keepRepeats := true } with
  | error e =>
    rw [hread] at hprint
    cases hprint
  | ok document =>
    rw [hread] at hprint
    obtain ⟨hevery, hlast⟩ := Prod.mk.inj (Option.some.inj hprint)
    exact ⟨document, rfl, hevery, hlast, parse_last_values hread⟩

end ConfigTree
