import ConfigTree.Proofs.Multimap.Listing
import ConfigTree.Proofs.Query.Labels
import ConfigTree.Proofs.Query.Walk
import ConfigTree.Proofs.Text.Numeral

/-! The children of a node, as the commands tell of them.  They are enumerated by key, with one node
for each key or with all, they are counted, and one of them is found under a fragment of a path.
All of this goes back to one listing of the keys with the nodes under each. -/

namespace ConfigTree

/-! ## The first of each key -/

namespace Multimap

variable {α : Type}

/-- Of the pairs with one key only the first. -/
def firstOfEach (pairs : List (String × α)) : List (String × α) :=
  pairs.eraseDupsBy fun p first => p.1 == first.1

theorem Sound.get?_of_mem [Inhabited α] {o : Multimap α} (h : o.Sound) {e : String × Member α}
    (he : e ∈ o.entries) : o.get? e.1 = some e.2.first := by
  obtain ⟨a, ha⟩ := (h.members e he).exists_first?
  have hmember : o.member? e.1 = some e.2 := lookup_eq_some_of_mem h.keysDistinct he
  rw [get?, hmember, Option.bind_some, Member.first, ha]
  rfl

/-- Where each key is listed once and with a value, the first pairs are those of first values. -/
theorem firstOfEach_flatMap [Inhabited α] {es : Listing α} (hkeys : es.keys.Nodup)
    (hfilled : ∀ e ∈ es, e.2 ≠ []) :
    firstOfEach (es.flatMap fun e => e.2.map (e.1, ·)) =
      es.map fun e => (e.1, e.2.head?.getD default) := by
  induction es with
  | nil => rfl
  | cons e es ih =>
    obtain ⟨key, as⟩ := e
    obtain ⟨hnew, hrest⟩ := List.nodup_cons.1 hkeys
    obtain ⟨a, as, rfl⟩ := List.exists_cons_of_ne_nil (hfilled (key, as) List.mem_cons_self)
    have hothers : ∀ p ∈ es.flatMap fun e => e.2.map (e.1, ·), p.1 ≠ key := by
      rintro p hp rfl
      obtain ⟨e, he, hp⟩ := List.mem_flatMap.1 hp
      obtain ⟨b, -, rfl⟩ := List.mem_map.1 hp
      exact hnew (List.mem_map.2 ⟨e, he, rfl⟩)
    -- Of the other pairs, those with the same key are dropped and those of later keys are kept.
    have hsame : (as.map (key, ·)).filter (fun p => decide ((p.1 == key) = false)) = [] := by
      rw [List.filter_map, List.map_eq_nil_iff, List.filter_eq_nil_iff]
      simp
    rw [List.flatMap_cons, List.map_cons, List.cons_append, firstOfEach, List.eraseDupsBy_cons,
      List.filter_append, hsame, List.nil_append, List.filter_eq_self.2 (by simpa using hothers),
      List.map_cons]
    exact congrArg _ (ih hrest fun e he => hfilled e (List.mem_cons_of_mem _ he))

end Multimap

/-! ## Children of a node -/

namespace Node

/-- The keys of a node with the nodes under each: the members of an object, and the items of an
array one by one. -/
def listing : Node → Multimap.Listing Node
  | object o => o.listing
  | array items => items.zipIdx.map fun (item, i) => (String.ofList (Text.ofNat i), [item])
  | _ => []

/-- An array has no more items than a machine word can count. -/
def IsCountable : Node → Prop
  | array items => items.length ≤ 2 ^ 64
  | _ => True

instance : DecidablePred IsCountable
  | array items => inferInstanceAs (Decidable (items.length ≤ 2 ^ 64))
  | null | bool _ | int _ | float _ | str _ | time _ | userdata _ | object _ =>
    inferInstanceAs (Decidable True)

/-- The fragment is the key.  The key of an item may have zeros in front, and a plus sign before
them. -/
def Names (fragment key : String) : Node → Prop
  | array _ => ∃ sign zeros, (sign = [] ∨ sign = ['+']) ∧
      fragment.toList = sign ++ (List.replicate zeros '0' ++ key.toList)
  | _ => fragment = key

/-- Keys, a node for each key, and all nodes with their keys, as they tell of the same children. -/
structure SameChildren (n : Node) (keys : List String) (firsts : List Node)
    (all : List (String × Node)) : Prop where
  size : n.isCompound = true → n.size = keys.length
  length : firsts.length = keys.length
  child? : ∀ i : Nat, keys[i]?.bind (fun key => n.child? key) = firsts[i]?
  names : ∀ fragment c, n.child? fragment = some c ↔
    ∃ (i : Nat) (key : String), keys[i]? = some key ∧ firsts[i]? = some c ∧ n.Names fragment key
  nodes : all.map Prod.snd = n.inner
  values : ∀ members, n = object members → ∀ key,
    Multimap.valuesWith key all = (members.member? key).elim [] Member.values
  firstOfEach : Multimap.firstOfEach all = keys.zip firsts

section

variable {n : Node}

theorem children_eq_flatMap (n : Node) :
    n.children = n.listing.flatMap fun e => e.2.map (e.1, ·) := by
  cases n with
  | object o =>
    rw [children, listing, Multimap.listing, List.flatMap_map]
    rfl
  | array items =>
    rw [children, listing, List.flatMap_map, List.map_eq_flatMap]
    rfl
  | _ => rfl

theorem firstChildren_eq_map (n : Node) :
    n.firstChildren = n.listing.map fun e => (e.1, e.2.head?.getD default) := by
  cases n with
  | object o =>
    rw [firstChildren, listing, Multimap.listing, List.map_map]
    rfl
  | array items =>
    rw [firstChildren, listing, List.map_map]
    rfl
  | _ => rfl

theorem map_fst_firstChildren (n : Node) : n.firstChildren.map Prod.fst = n.keys := by
  cases n with
  | object o =>
    rw [firstChildren, List.map_map]
    rfl
  | array items =>
    rw [firstChildren, keys, List.map_map, List.range_eq_range', ← List.zipIdx_map_snd 0 items,
      List.map_map]
    rfl
  | _ => rfl

theorem keys_listing (n : Node) : n.listing.keys = n.keys := by
  rw [← map_fst_firstChildren, firstChildren_eq_map, List.map_map]
  rfl

theorem Sound.nodup_keys (h : n.Sound) : n.keys.Nodup := by
  cases n with
  | object o => exact Multimap.Sound.keysDistinct h
  | array items =>
    have hinj : Function.Injective fun i => String.ofList (Text.ofNat i) := by
      intro i j hij
      have hread := Text.natural?_ofNat i
      rw [String.ofList_inj.1 hij, Text.natural?_ofNat] at hread
      exact (Option.some.inj hread).symm
    exact List.nodup_range.map hinj
  | _ => exact List.nodup_nil

theorem Sound.filled (h : n.Sound) : ∀ e ∈ n.listing, e.2 ≠ [] := by
  cases n with
  | object o => exact (Multimap.Sound.shows h).filled
  | array items =>
    intro e he
    obtain ⟨_, _, rfl⟩ := List.mem_map.1 he
    exact List.cons_ne_nil _ _
  | _ => nofun

theorem Sound.firstOfEach_children (h : n.Sound) :
    Multimap.firstOfEach n.children = n.firstChildren := by
  rw [children_eq_flatMap, Multimap.firstOfEach_flatMap (keys_listing n ▸ h.nodup_keys) h.filled,
    firstChildren_eq_map]

theorem size_eq_length (h : n.isCompound = true) : n.size = n.firstChildren.length := by
  cases n with
  | object o => exact (List.length_map _).symm
  | array items =>
    rw [firstChildren, List.length_map, List.length_zipIdx]
    rfl
  | _ => cases h

theorem getElem?_firstChildren_array {items : List Node} {i : Nat} {c : String × Node} :
    (array items).firstChildren[i]? = some c ↔
      items[i]? = some c.2 ∧ c.1 = String.ofList (Text.ofNat i) := by
  rw [firstChildren, List.getElem?_map, List.getElem?_zipIdx, Option.map_map]
  obtain ⟨key, item⟩ := c
  cases items[i]? <;> simp [eq_comm, and_comm]

theorem getElem?_firstChildren_object {o : Multimap Node} (h : o.Sound) {i : Nat}
    {c : String × Node} :
    (object o).firstChildren[i]? = some c ↔
      o.keys[i]? = some c.1 ∧ o.get? c.1 = some c.2 := by
  rw [firstChildren, Multimap.keys, List.getElem?_map, List.getElem?_map]
  obtain ⟨key, child⟩ := c
  cases he : o.entries[i]? with
  | none => simp
  | some e =>
    have hfirst : o.get? e.1 = some e.2.first := h.get?_of_mem (List.mem_of_getElem? he)
    simp only [Option.map_some, Option.some.injEq, Prod.mk.injEq]
    constructor
    · rintro ⟨rfl, rfl⟩
      exact ⟨rfl, hfirst⟩
    · rintro ⟨rfl, hchild⟩
      exact ⟨rfl, Option.some.inj (hfirst.symm.trans hchild)⟩

theorem child?_of_getElem? (h : n.Sound) (hcount : n.IsCountable) {i : Nat} {c : String × Node}
    (hc : n.firstChildren[i]? = some c) : n.child? c.1 = some c.2 := by
  cases n with
  | object o => exact ((getElem?_firstChildren_object h).1 hc).2
  | array items =>
    obtain ⟨hitem, hkey⟩ := getElem?_firstChildren_array.1 hc
    have hlt : i < items.length := (List.getElem?_eq_some_iff.1 hitem).1
    rw [hkey, child?, index?_ofNat (Nat.lt_of_lt_of_le hlt hcount)]
    exact hitem
  | _ => cases hc

theorem index?_eq_some_iff {fragment : String} {items : List Node} {i : Nat} :
    index? fragment = some i ↔
      i < 2 ^ 64 ∧ (array items).Names fragment (String.ofList (Text.ofNat i)) := by
  rw [index?, Text.unsigned?_ten_eq_some_iff, Names, String.toList_ofList]

theorem child?_eq_some_iff (h : n.Sound) (hcount : n.IsCountable) {fragment : String}
    {child : Node} :
    n.child? fragment = some child ↔
      ∃ (i : Nat) (key : String), n.firstChildren[i]? = some (key, child) ∧
        n.Names fragment key := by
  cases n with
  | object o =>
    constructor
    · intro hchild
      obtain ⟨i, hi⟩ := List.mem_iff_getElem?.1 (Multimap.mem_keys_of_get? hchild)
      exact ⟨i, fragment, (getElem?_firstChildren_object h).2 ⟨hi, hchild⟩, rfl⟩
    · rintro ⟨i, key, hi, rfl⟩
      exact child?_of_getElem? h hcount hi
  | array items =>
    constructor
    · intro hchild
      obtain ⟨i, hindex, hitem⟩ := child?_array hchild
      exact ⟨i, _, getElem?_firstChildren_array.2 ⟨hitem, rfl⟩, (index?_eq_some_iff.1 hindex).2⟩
    · rintro ⟨i, key, hi, hnames⟩
      obtain ⟨hitem, rfl⟩ := getElem?_firstChildren_array.1 hi
      have hlt : i < items.length := (List.getElem?_eq_some_iff.1 hitem).1
      have hindex := index?_eq_some_iff.2 ⟨Nat.lt_of_lt_of_le hlt hcount, hnames⟩
      rw [child?, hindex]
      exact hitem
  | _ => simp [child?, firstChildren]

theorem sameChildren (h : n.Sound) (hcount : n.IsCountable) :
    n.SameChildren n.keys (n.firstChildren.map Prod.snd) n.children where
  size hn := by rw [← map_fst_firstChildren, List.length_map, size_eq_length hn]
  length := by rw [← map_fst_firstChildren, List.length_map, List.length_map]
  child? i := by
    rw [← map_fst_firstChildren, List.getElem?_map, List.getElem?_map]
    cases hc : n.firstChildren[i]? with
    | none => rfl
    | some c => exact child?_of_getElem? h hcount hc
  names fragment child := by
    rw [child?_eq_some_iff h hcount, ← map_fst_firstChildren]
    simp only [List.getElem?_map, Option.map_eq_some_iff]
    constructor
    · exact fun ⟨i, key, hi, hnames⟩ => ⟨i, key, ⟨_, hi, rfl⟩, ⟨_, hi, rfl⟩, hnames⟩
    · rintro ⟨i, _, ⟨c, hc, rfl⟩, ⟨c', hc', rfl⟩, hnames⟩
      obtain rfl : c = c' := Option.some.inj (hc.symm.trans hc')
      exact ⟨i, c.1, hc, hnames⟩
  nodes := map_snd_children n
  values members hn key := by
    subst hn
    have hpairs : Multimap.ofPairs members.toPairs = members := Multimap.Sound.ofPairs_toPairs h
    rw [children, ← Multimap.values_ofPairs, hpairs]
  firstOfEach := h.firstOfEach_children.trans (List.zip_of_prod (map_fst_firstChildren n) rfl)

end

end Node

/-! ## Commands -/

namespace Query

/-- A command that puts out records and leaves the rest of the chain where it is. -/
def putting (o : Options) (depth : Nat) (records : List Record) : Trace Nat := do
  o.checkDepth depth
  ⟨records, .ok (depth + 1)⟩

/-- A command that leads to one place after the other.  The rest of the chain runs there; with no
rest, a record is put out for each. -/
def visiting (o : Options) (rest : List Command) (depth : Nat) (visits : List (Record × Place)) :
    Trace Nat := do
  o.checkDepth depth
  visits.forM fun v => leadOn rest (runChain o rest) v.1 v.2
  pure (depth + 1 + rest.length)

/-- The record of a child under its key. -/
def childRecord (o : Options) (path : String) (c : String × Node) : Record :=
  .node (some c.2) path (String.singleton o.inputDelimiter ++ c.1)

section

variable (o : Options) (rest : List Command) (n : Node) (path : String) (depth : Nat)

theorem evaluate_eq_putting {command : Command} (h : command.leadsOn = false) (p : Place) :
    evaluate o (command :: rest) p =
      putting o p.depth ((reports o.inputDelimiter p command).filterMap Event.record?) := by
  have hreports : perform o.maxDepth (reports o.inputDelimiter p command) =
      ⟨(reports o.inputDelimiter p command).filterMap Event.record?, .ok ()⟩ := by
    rw [perform, List.takeWhile_eq_self_iff.2 isWithin_reports,
      if_pos (List.all_eq_true.2 isWithin_reports)]
  rw [evaluate_of_reports h, perform_cons _ (reports ..), ← checkDepth_eq_perform, bind_assoc,
    hreports, putting]
  simp [bind, Trace.bind]

theorem evaluate_keys :
    evaluate o (.keys :: rest) ⟨some n, path, depth⟩ =
      putting o depth (n.keys.map (.line "" "" ·)) := by
  rw [evaluate_eq_putting o rest rfl, reports, List.filterMap_map, ← List.filterMap_eq_map]
  rfl

theorem evaluate_length :
    evaluate o (.length :: rest) ⟨some n, path, depth⟩ =
      putting o depth [.line path "" (String.ofList (Text.ofNat n.size))] :=
  evaluate_eq_putting o rest rfl _

theorem evaluate_values :
    evaluate o (.values :: rest) ⟨some n, path, depth⟩ =
      putting o depth (n.children.map (childRecord o path)) := by
  rw [evaluate_eq_putting o rest rfl, reports, List.filterMap_map, ← List.filterMap_eq_map]
  rfl

theorem evaluate_iterate :
    evaluate o (.iterate :: rest) ⟨some n, path, depth⟩ =
      visiting o rest depth ((n.firstChildren.map Prod.snd).map fun child =>
        (.node (some child) path "", ⟨some child, path, depth + 1⟩)) := by
  rw [visiting, List.map_map, List.forM_eq_forM, List.forM_map]
  rfl

theorem evaluate_each :
    evaluate o (.each :: rest) ⟨some n, path, depth⟩ =
      visiting o rest depth (n.children.map fun c =>
        (childRecord o path c,
          ⟨some c.2, Path.join o.inputDelimiter path c.1, depth + 1⟩)) := by
  rw [visiting, List.forM_eq_forM, List.forM_map]
  rfl

end

/-- The keys that are put out, the length, what `iterate`, `each` and `values` come to, and the
nodes that are found under fragments of paths are all about the same children. -/
theorem commands_show_same_children (o : Options) {n : Node} (hn : n.WellFormed)
    (hcount : n.IsCountable) (rest : List Command) (path : String) (depth : Nat) :
    let p : Place := ⟨some n, path, depth⟩
    let keys := n.keys
    let firsts := n.firstChildren.map Prod.snd
    let all := n.children
    evaluate o (.keys :: rest) p = putting o depth (keys.map (.line "" "" ·)) ∧
      (n.isCompound = true → evaluate o (.length :: rest) p =
        putting o depth [.line path "" (String.ofList (Text.ofNat keys.length))]) ∧
      evaluate o (.iterate :: rest) p = visiting o rest depth (firsts.map fun child =>
        (.node (some child) path "", ⟨some child, path, depth + 1⟩)) ∧
      evaluate o (.values :: rest) p = putting o depth (all.map (childRecord o path)) ∧
      evaluate o (.each :: rest) p = visiting o rest depth (all.map fun c =>
        (childRecord o path c,
          ⟨some c.2, Path.join o.inputDelimiter path c.1, depth + 1⟩)) ∧
      n.SameChildren keys firsts all := by
  intro p keys firsts all
  have hsame : n.SameChildren keys firsts all := Node.sameChildren hn.here hcount
  refine ⟨evaluate_keys o rest n path depth, fun hcompound => ?_,
    evaluate_iterate o rest n path depth, evaluate_values o rest n path depth,
    evaluate_each o rest n path depth, hsame⟩
  rw [evaluate_length, hsame.size hcompound]

/-- A key with two values is listed and visited once, with the first of them, and an item is found
under its index with a sign and a zero in front. -/
theorem commands_show_same_children_of_repeated_key :
    let object : Node := .object ⟨[("b", .repeated [.int 1, .null]), ("", .single (.str "x"))]⟩
    let array : Node := .array [.null, object]
    (object.WellFormed ∧ object.IsCountable) ∧ (array.WellFormed ∧ array.IsCountable) ∧
      evaluate default [.keys] ⟨some object, "", 0⟩ = ⟨[.line "" "" "b", .line "" "" ""], .ok 1⟩ ∧
      object.SameChildren ["b", ""] [.int 1, .str "x"]
        [("b", .int 1), ("b", .null), ("", .str "x")] ∧
      array.child? "+01" = some object := by
  intro object array
  have hobject : object.WellFormed ∧ object.IsCountable := by decide +kernel
  have harray : array.WellFormed ∧ array.IsCountable := by decide +kernel
  obtain ⟨hkeys, -, -, -, -, hsame⟩ :=
    commands_show_same_children default hobject.1 hobject.2 [] "" 0
  obtain ⟨-, -, -, -, -, hnames⟩ := commands_show_same_children default harray.1 harray.2 [] "" 0
  have hone : ∃ (i : Nat) (key : String), array.keys[i]? = some key ∧
      [Node.null, object][i]? = some object ∧ array.Names "+01" key :=
    ⟨1, "1", by decide +kernel, rfl, ['+'], 1, .inr rfl, rfl⟩
  exact ⟨hobject, harray, hkeys, hsame, (hnames.names "+01" object).2 hone⟩

end Query

end ConfigTree
