import ConfigTree.Proofs.Value

/-! What a tree keeps when it is written as plain data and read back.  A repeated key becomes a key
with an array of its values, what is opaque becomes null, and a duration a number. -/

namespace ConfigTree

/-- One way to treat a single value, another for the values of a repeated key. -/
def Member.spread {α β : Type} (one : α → β) (many : List β → β) : Member α → β
  | single a => one a
  | repeated as => many (as.map one)

namespace Value

mutual

/-- Nesting depth, as of nodes. -/
def depth : Value → Nat
  | seq items => 1 + depthItems items
  | map pairs => 1 + depthPairs pairs
  | _ => 0
termination_by structural v => v

def depthItems : List Value → Nat
  | [] => 0
  | v :: vs => max (depth v) (depthItems vs)
termination_by structural vs => vs

def depthPairs : List (String × Value) → Nat
  | [] => 0
  | (_, v) :: ps => max (depth v) (depthPairs ps)
termination_by structural ps => ps

end

def isFloat : Value → Bool
  | float _ => true
  | _ => false

/-- No number of it is a floating-point one. -/
inductive FloatFree : Value → Prop
  | intro {v : Value} (here : v.isFloat = false) (inner : ∀ w ∈ v.inner, w.FloatFree) : v.FloatFree

theorem FloatFree.here {v : Value} (h : v.FloatFree) : v.isFloat = false := by
  cases h with
  | intro hv _ => exact hv

theorem FloatFree.inner {v w : Value} (h : v.FloatFree) (hw : w ∈ v.inner) : w.FloatFree := by
  cases h with
  | intro _ hi => exact hi w hw

theorem floatFree_of_inner_eq_nil {v : Value} (hv : v.isFloat = false) (hi : v.inner = []) :
    v.FloatFree := by
  refine .intro hv fun w hw => ?_
  rw [hi] at hw
  cases hw

mutual

/-- Plain data as a node of its own, in which every pair is an entry. -/
def plain : Value → Node
  | null => .null
  | bool b => .bool b
  | int n => .int n
  | float x => .float x
  | str s => .str s
  | seq items => .array (plainItems items)
  | map pairs => .object ⟨plainPairs pairs⟩
termination_by structural v => v

def plainItems : List Value → List Node
  | [] => []
  | v :: vs => plain v :: plainItems vs
termination_by structural vs => vs

def plainPairs : List (String × Value) → List (String × Member Node)
  | [] => []
  | (k, v) :: ps => (k, .single (plain v)) :: plainPairs ps
termination_by structural ps => ps

end

end Value

namespace Node

mutual

/-- The node that plain data keeps of a node. -/
def canon : Node → Node
  | null | userdata _ => null
  | bool b => .bool b
  | int n => .int n
  | float x | time x => .float x
  | str s => .str s
  | array items => array (canonItems items)
  | object ⟨entries⟩ => object ⟨canonEntries entries⟩
termination_by structural n => n

def canonItems : List Node → List Node
  | [] => []
  | n :: ns => canon n :: canonItems ns
termination_by structural ns => ns

def canonEntries : List (String × Member Node) → List (String × Member Node)
  | [] => []
  | (k, .single n) :: es => (k, .single (canon n)) :: canonEntries es
  | (k, .repeated ns) :: es => (k, .single (array (canonItems ns))) :: canonEntries es
termination_by structural es => es

end

theorem canonItems_eq_map (ns : List Node) : canonItems ns = ns.map canon := by
  induction ns with
  | nil => rfl
  | cons n ns ih => simp [canonItems, ih]

theorem canonEntries_eq_map (es : List (String × Member Node)) :
    canonEntries es = es.map fun e => (e.1, .single (e.2.spread canon array)) := by
  induction es with
  | nil => rfl
  | cons e es ih =>
    obtain ⟨k, n | ns⟩ := e
    · simp [canonEntries, ih, Member.spread]
    · simp [canonEntries, ih, Member.spread, canonItems_eq_map]

theorem entriesToPairs_eq_map (es : List (String × Member Node)) :
    entriesToPairs es = es.map fun e => (e.1, e.2.spread toValue .seq) := by
  induction es with
  | nil => rfl
  | cons e es ih =>
    obtain ⟨k, n | ns⟩ := e
    · simp [entriesToPairs, ih, Member.spread]
    · simp [entriesToPairs, ih, Member.spread, itemsToValues_eq_map]

/-! ## Depth -/

mutual

theorem depth_toValue : (n : Node) → n.toValue.depth = n.canon.depth
  | array items => by
    rw [toValue, canon, Value.depth, depth, depthItems_itemsToValues items]
  | object ⟨es⟩ => by
    rw [toValue, canon, Value.depth, depth, depthPairs_entriesToPairs es]
  | null | bool _ | int _ | float _ | str _ | time _ | userdata _ => rfl
termination_by structural n => n

theorem depthItems_itemsToValues : (ns : List Node) →
    Value.depthItems (itemsToValues ns) = depthItems (canonItems ns)
  | [] => rfl
  | n :: ns => by
    rw [itemsToValues, canonItems, Value.depthItems, depthItems, depth_toValue n,
      depthItems_itemsToValues ns]
termination_by structural ns => ns

theorem depthPairs_entriesToPairs : (es : List (String × Member Node)) →
    Value.depthPairs (entriesToPairs es) = depthEntries (canonEntries es)
  | [] => rfl
  | (k, .single n) :: es => by
    rw [entriesToPairs, canonEntries, Value.depthPairs, depthEntries, depth_toValue n,
      depthPairs_entriesToPairs es]
  | (k, .repeated ns) :: es => by
    rw [entriesToPairs, canonEntries, Value.depthPairs, depthEntries, Value.depth, depth,
      depthItems_itemsToValues ns, depthPairs_entriesToPairs es]
termination_by structural es => es

end

/-! ## What is written tells the canonical tree -/

mutual

theorem plain_toValue : (n : Node) → n.toValue.plain = n.canon
  | array items => by rw [toValue, canon, Value.plain, plainItems_itemsToValues items]
  | object ⟨es⟩ => by rw [toValue, canon, Value.plain, plainPairs_entriesToPairs es]
  | null | bool _ | int _ | float _ | str _ | time _ | userdata _ => rfl
termination_by structural n => n

theorem plainItems_itemsToValues : (ns : List Node) →
    Value.plainItems (itemsToValues ns) = canonItems ns
  | [] => rfl
  | n :: ns => by
    rw [itemsToValues, canonItems, Value.plainItems, plain_toValue n, plainItems_itemsToValues ns]
termination_by structural ns => ns

theorem plainPairs_entriesToPairs : (es : List (String × Member Node)) →
    Value.plainPairs (entriesToPairs es) = canonEntries es
  | [] => rfl
  | (k, .single n) :: es => by
    rw [entriesToPairs, canonEntries, Value.plainPairs, plain_toValue n,
      plainPairs_entriesToPairs es]
  | (k, .repeated ns) :: es => by
    rw [entriesToPairs, canonEntries, Value.plainPairs, Value.plain, plainItems_itemsToValues ns,
      plainPairs_entriesToPairs es]
termination_by structural es => es

end

theorem canon_eq_of_toValue_eq {a b : Node} (h : a.toValue = b.toValue) : a.canon = b.canon := by
  rw [← plain_toValue a, h, plain_toValue b]

/-! ## Reading back -/

section

variable {options : ReadOptions} {n : Node}

theorem toNode_spread {m : Member Node} (h : ∀ n ∈ m.values, n.toValue.toNode options = n.canon) :
    (m.spread toValue .seq).toNode options = m.spread canon array := by
  cases m with
  | single a => exact h a List.mem_cons_self
  | repeated as =>
    rw [Member.spread, Value.toNode_seq, List.map_map]
    exact congrArg array (List.map_congr_left h)

/-- Reading back what is written gives the canonical tree, whatever becomes of repeated keys. -/
theorem toNode_toValue (hcase : options.foldCase = false) (hn : n.Everywhere KeysDistinct) :
    n.toValue.toNode options = n.canon := by
  induction n using inductInner with
  | step n ih =>
    have hinner (m : Node) (hm : m ∈ n.inner) : m.toValue.toNode options = m.canon :=
      ih m hm (hn.inner hm)
    cases n with
    | array items =>
      rw [toValue, canon, Value.toNode_seq, itemsToValues_eq_map, canonItems_eq_map, List.map_map]
      exact congrArg array (List.map_congr_left hinner)
    | object o =>
      obtain ⟨es⟩ := o
      have hkeys : (es.map Prod.fst).Nodup := hn.here
      rw [toValue, canon, Value.toNode_map, entriesToPairs_eq_map, canonEntries_eq_map,
        List.map_map, ReadOptions.gather_of_nodup]
      · rw [List.map_map]
        refine congrArg (object ∘ Multimap.mk) (List.map_congr_left fun e he => ?_)
        simp only [Function.comp_apply, ReadOptions.key_eq_self hcase]
        rw [toNode_spread fun m hm => hinner m (Multimap.mem_values_of_mem he hm)]
      · simpa [Function.comp_def, ReadOptions.key_eq_self hcase] using hkeys
    | _ => rfl

theorem canon_eq_self (htime : n.Free .time) (hdata : n.Free .userdata) (hrep : n.NoRepeats) :
    n.canon = n := by
  induction n using inductInner with
  | step n ih =>
    have hinner (m : Node) (hm : m ∈ n.inner) : m.canon = m :=
      ih m hm (htime.inner hm) (hdata.inner hm) (hrep.inner hm)
    cases n with
    | array items =>
      rw [canon, canonItems_eq_map]
      exact congrArg array ((List.map_congr_left hinner).trans (List.map_id items))
    | object o =>
      obtain ⟨es⟩ := o
      rw [canon, canonEntries_eq_map]
      refine congrArg (object ∘ Multimap.mk) ?_
      refine (List.map_congr_left fun e he => ?_).trans (List.map_id es)
      obtain ⟨k, a | as⟩ := e
      · have ha : a.canon = a := hinner a (Multimap.mem_values_of_mem he List.mem_cons_self)
        simp [Member.spread, ha]
      · cases hrep.here _ he
    | time x => exact absurd rfl htime.here
    | userdata t => exact absurd rfl hdata.here
    | _ => rfl

end

/-! ## No floating-point numbers -/

theorem floatFree_spread {m : Member Node} (h : ∀ n ∈ m.values, n.toValue.FloatFree) :
    (m.spread toValue .seq).FloatFree := by
  cases m with
  | single a => exact h a List.mem_cons_self
  | repeated as =>
    refine .intro rfl fun w hw => ?_
    obtain ⟨n, hn, rfl⟩ := List.mem_map.1 hw
    exact h n hn

theorem floatFree_toValue {n : Node} (hfloat : n.Free .float) (htime : n.Free .time) :
    n.toValue.FloatFree := by
  induction n using inductInner with
  | step n ih =>
    have hinner (m : Node) (hm : m ∈ n.inner) : m.toValue.FloatFree :=
      ih m hm (hfloat.inner hm) (htime.inner hm)
    cases n with
    | array items =>
      refine .intro rfl fun w hw => ?_
      rw [toValue, itemsToValues_eq_map] at hw
      obtain ⟨m, hm, rfl⟩ := List.mem_map.1 hw
      exact hinner m hm
    | object o =>
      obtain ⟨es⟩ := o
      refine .intro rfl fun w hw => ?_
      rw [toValue, entriesToPairs_eq_map, Value.inner, List.map_map] at hw
      obtain ⟨e, he, rfl⟩ := List.mem_map.1 hw
      exact floatFree_spread fun m hm => hinner m (Multimap.mem_values_of_mem he hm)
    | float x => exact absurd rfl hfloat.here
    | time x => exact absurd rfl htime.here
    | _ => exact Value.floatFree_of_inner_eq_nil rfl rfl

end Node

end ConfigTree
